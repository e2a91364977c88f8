import RouteTable.Proofs.Pattern.Grammar
import RouteTable.Proofs.Utf8.Decoding

/-!
# The encoding of patterns

A pattern is cut between bytes, not between characters, and within a declaration a backslash takes
the meaning from one byte, even if a longer sequence begins there. But there is a brace, a colon or
a backslash next to each cut, and these bytes are sequences of their own. So the parts of a text in
UTF-8 are in UTF-8, and the encoding of literals matters only if a pattern is put together from
segments.

* `Segment.isValid_of_scan`: whatever is read from a text is in UTF-8
* `Segment.validate_ne_literalNotUtf8`: the encoding of its literals is never refused
* `Segment.literals`: the texts of the literals
* `Segment.exists_literals_eq_map_encode`: they encode as many scalar values as are counted
* `Pattern.isValid_of_literal_mem`: which texts of patterns are in UTF-8
-/

namespace RouteTable

namespace Segment

variable {row : List Segment} {s : Bytes}

/-! ## What is read -/

/-- Whatever is read from a text is in UTF-8. The rule of a default variable is, too, though it is
not read. -/
theorem isValid_of_scan (h : scan s = .ok row) :
    (∀ text, literal text ∈ row → Utf8.isValid text) ∧
    ∀ v ∈ vars row, Utf8.isValid v.name ∧ Utf8.isValid v.rule := by
  obtain ⟨hs, hscans⟩ := scan_eq_ok_iff.1 h
  rw [← hscans.flatMap_spell, isValid_flatMap_spell_iff hscans.isNormal] at hs
  refine ⟨hs.1, fun v hv => ?_⟩
  obtain ⟨hname, hrule⟩ := isValid_body_iff.1 (hs.2 v hv)
  refine ⟨hname, hrule.elim (fun hd => ?_) id⟩
  have hdefault := hscans.normalize_var v hv
  rw [Variable.normalize, if_pos hd] at hdefault
  rw [← hdefault]
  show Utf8.isValid Variable.defaultRule
  decide +kernel

theorem ne_literalNotUtf8_of_scan {e : PatternError} (h : scan s = .error e) :
    e.fault ≠ .literalNotUtf8 := by
  rw [scan] at h
  split at h
  · cases hs : scanFrom 0 s with
    | ok row =>
      rw [hs] at h
      cases h
    | error fault =>
      rw [hs] at h
      obtain rfl := Except.error.inj h
      obtain ⟨_, _, -, rfl⟩ := exists_unclosed_of_scanFrom hs
      simp
  · obtain rfl := Except.error.inj h
    simp

/-- The literals of a text that is read are never refused. -/
theorem validate_ne_literalNotUtf8 (h : scan s = .ok row) :
    validate row ≠ .error .literalNotUtf8 := by
  intro hv
  obtain ⟨_, hm, hfault⟩ := exists_faultOf hv
  cases hfault with
  | @encoding text ht => exact ht ((isValid_of_scan h).1 text hm)

/-! ## Scalar values -/

def literals : List Segment → List Bytes
  | [] => []
  | literal text :: row => text :: literals row
  | var _ :: row => literals row

/-- The literals encode as many scalar values as are counted. -/
theorem exists_literals_eq_map_encode (h : ∀ text, literal text ∈ row → Utf8.isValid text) :
    ∃ texts : List (List Char),
      literals row = texts.map Utf8.encode ∧ literalCount row = texts.flatten.length := by
  fun_induction literals row with
  | case1 => exact ⟨[], rfl, rfl⟩
  | case2 text row ih =>
    obtain ⟨cs, rfl⟩ := Utf8.exists_eq_encode_of_isValid (h text List.mem_cons_self)
    obtain ⟨texts, hrow, hcount⟩ := ih fun text' hm => h text' (List.mem_cons_of_mem _ hm)
    refine ⟨cs :: texts, congrArg _ hrow, ?_⟩
    rw [literalCount, hcount, Utf8.scalarCount_encode, List.flatten_cons, List.length_append]
  | case3 v row ih => exact ih fun text hm => h text (List.mem_cons_of_mem _ hm)

end Segment

/-! ## Patterns -/

namespace Pattern

theorem fault_ne_literalNotUtf8 {source : Bytes} {e : PatternError}
    (h : Segment.parse source = .error e ∨ parse source = .error e) :
    e.fault ≠ .literalNotUtf8 := by
  rcases h with h | h
  · rcases bind_eq_error_iff.1 h with hscan | ⟨row, hscan, h⟩
    · exact Segment.ne_literalNotUtf8_of_scan hscan
    split at h
    · cases h
    · next fault hv =>
      obtain rfl := Except.error.inj h
      exact fun he => Segment.validate_ne_literalNotUtf8 hscan (hv.trans (congrArg _ he))
  · rcases bind_eq_error_iff.1 h with hscan | ⟨row, hscan, h⟩
    · exact Segment.ne_literalNotUtf8_of_scan hscan
    rw [build] at h
    split at h
    · cases h
    · next fault hfault =>
      obtain rfl := Except.error.inj h
      rintro rfl
      rcases bind_eq_error_iff.1 hfault with hv | ⟨_, -, hm⟩
      · exact Segment.validate_ne_literalNotUtf8 hscan hv
      · cases eq_cannotCompile_of_makeMatcher hm

/-- All literals, names and rules that are read from a text are in UTF-8, so no text is refused
because of the encoding of a literal. The literals of every pattern that is accepted are in UTF-8,
and so is its leading text. As many scalar values are counted as the literals encode, up to
multiples of 2³². -/
theorem isValid_of_literal_mem :
    (∀ source row, Segment.scan source = .ok row →
      (∀ text, .literal text ∈ row → Utf8.isValid text) ∧
        ∀ v, .var v ∈ row → Utf8.isValid v.name ∧ Utf8.isValid v.rule) ∧
    (∀ source e, Segment.parse source = .error e ∨ parse source = .error e →
      e.fault ≠ .literalNotUtf8) ∧
    ∀ p : Pattern, p.Accepted →
      (∀ text, .literal text ∈ p.segments → Utf8.isValid text) ∧
        Utf8.isValid p.literalPrefix ∧
        ∃ texts : List (List Char), Segment.literals p.segments = texts.map Utf8.encode ∧
          p.literalCount.toNat = texts.flatten.length % 2 ^ 32 := by
  refine ⟨fun source row h => ?_, fun source e => fault_ne_literalNotUtf8, fun p hp => ?_⟩
  · obtain ⟨hliterals, hvars⟩ := Segment.isValid_of_scan h
    exact ⟨hliterals, fun v hv => hvars v (Segment.mem_vars_iff.2 hv)⟩
  · obtain ⟨counts, hc, -⟩ := hp.exists_counts
    have hliterals : ∀ text, .literal text ∈ p.segments → Utf8.isValid text :=
      fun text => Segment.isValid_of_validateWith hc
    obtain ⟨texts, htexts, hcount⟩ := Segment.exists_literals_eq_map_encode hliterals
    refine ⟨hliterals, hp.isValid_literalPrefix, texts, htexts, ?_⟩
    rw [literalCount, hcount, UInt32.toNat_ofNat']

-- The backslash in the declaration takes the meaning from one byte of a sequence of two.
example : (Segment.scan (.ofString "é\x7bx:\\é\x7d")).toOption =
    some [.literal (.ofString "é"), .var ⟨.ofString "x", .ofString "\\é", false⟩] := by
  decide +kernel

end Pattern

end RouteTable
