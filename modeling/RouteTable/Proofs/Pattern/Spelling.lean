import RouteTable.Proofs.Pattern.Normal

/-!
# Spelling what was read

The segments that are read from a text spell it: a backslash is dropped in front of an opening brace
only, where it is written again, and the name and the rule of a variable are put together at the
colon where the declaration was cut.

* `Segment.Scans`: a text is read into segments, byte by byte
* `scan_eq_ok_iff`: the segments of a text are those that it is read into
* `Scans.flatMap_spell`: a text is spelled by the segments that it is read into
* `Scans.backslashBeforeVariable_eq`: no literal that is read ends with a backslash before a
  variable
* `Pattern.compile_segments_of_parse`: the segments of a pattern that a text spells make up this
  pattern again
-/

namespace RouteTable

/-! ## Declarations -/

namespace Variable

/-- The text between the braces of a declaration and what follows it make up the text that is read.
-/
theorem eq_of_body? {depth : Nat} {s body rest : Bytes} (h : body? depth s = some (body, rest)) :
    s = body ++ Byte.closeBrace :: rest := by
  fun_induction body? depth s generalizing body with
  | case1 => cases h
  | case2 =>
    obtain ⟨rfl, rfl⟩ := Prod.mk.inj (Option.some.inj h)
    rfl
  | case3 _ _ ih | case4 _ _ _ ih | case6 _ _ _ _ _ ih | case7 _ _ _ _ _ _ ih =>
    obtain ⟨tail, htail, rfl⟩ := extendBody_eq_some.1 h
    rw [ih htail]
    rfl
  | case5 => cases h

def body (v : Variable) : Bytes :=
  v.name ++ if v.isDefault then [] else Byte.colon :: v.rule

theorem spell_eq (v : Variable) : v.spell = Byte.openBrace :: (v.body ++ [Byte.closeBrace]) := by
  rw [spell, body]
  rfl

theorem body_ofBody (text : Bytes) : (ofBody text).body = text := by
  have hsplit :=
    List.takeWhile_append_dropWhile (p := fun b => decide (b ≠ Byte.colon)) (l := text)
  rw [ofBody]
  split
  · exact List.append_nil text
  · next c rule hd =>
    have hc := List.head?_dropWhile_not (fun b => decide (b ≠ Byte.colon)) text
    rw [hd] at hc hsplit
    obtain rfl : c = Byte.colon := by simpa using hc
    exact hsplit

theorem normalize_ofBody (text : Bytes) : (ofBody text).normalize = ofBody text := by
  rw [ofBody]
  split <;> rfl

end Variable

namespace Segment

/-! ## Texts and their segments -/

inductive Scans : Bytes → List Segment → Prop
  | nil : Scans [] []
  | var {s body rest : Bytes} {segments : List Segment}
      (hbody : Variable.body? 0 s = some (body, rest)) (h : Scans rest segments) :
      Scans (Byte.openBrace :: s) (var (.ofBody body) :: segments)
  /-- A backslash in front of an opening brace is dropped, and the brace is literal. -/
  | escaped {s : Bytes} {segments : List Segment} (h : Scans s segments) :
      Scans (Byte.backslash :: Byte.openBrace :: s) (prepend [Byte.openBrace] segments)
  | byte {b : UInt8} {s : Bytes} {segments : List Segment} (hb : b ≠ Byte.openBrace)
      (hs : b = Byte.backslash → s.head? ≠ some Byte.openBrace) (h : Scans s segments) :
      Scans (b :: s) (prepend [b] segments)

theorem scans_of_scanFrom {index : Nat} {s : Bytes} {segments : List Segment}
    (h : scanFrom index s = .ok segments) : Scans s segments := by
  fun_induction scanFrom index s generalizing segments with
  | case1 =>
    obtain rfl := Except.ok.inj h
    exact .nil
  | case2 => cases h
  | case3 _ _ _ _ hbody ih =>
    obtain ⟨segments', h', he⟩ := bind_eq_ok.1 h
    obtain rfl := Except.ok.inj he
    exact .var hbody (ih h')
  | case4 _ b hb c s hbc ih =>
    obtain ⟨segments', h', he⟩ := bind_eq_ok.1 h
    obtain rfl := Except.ok.inj he
    obtain ⟨rfl, rfl⟩ := hbc
    exact .escaped (ih h')
  | case5 _ b hb c s hbc ih =>
    obtain ⟨segments', h', he⟩ := bind_eq_ok.1 h
    obtain rfl := Except.ok.inj he
    exact .byte hb (fun hb' hc => hbc ⟨hb', Option.some.inj hc⟩) (ih h')
  | case6 _ b hb =>
    obtain rfl := Except.ok.inj h
    exact .byte hb (fun _ => by simp) .nil

theorem Scans.scanFrom_eq {s : Bytes} {segments : List Segment} (h : Scans s segments)
    (index : Nat) : scanFrom index s = .ok segments := by
  induction h generalizing index with
  | nil => rw [scanFrom]
  | var hbody _ ih =>
    rw [scanFrom.eq_def]
    dsimp only
    rw [if_pos rfl]
    split
    · next hn => cases hbody.symm.trans hn
    · next body' rest' hbody' =>
      obtain ⟨rfl, rfl⟩ := Prod.mk.inj (Option.some.inj (hbody.symm.trans hbody'))
      rw [ih]
      rfl
  | escaped _ ih =>
    rw [scanFrom.eq_def]
    dsimp only
    rw [if_neg (by decide), if_pos ⟨rfl, rfl⟩, ih]
    rfl
  | @byte b s segments hb hs _ ih =>
    rw [scanFrom.eq_def]
    dsimp only
    rw [if_neg hb]
    cases s with
    | nil =>
      have hnil := ih 0
      rw [scanFrom] at hnil
      obtain rfl := Except.ok.inj hnil
      rfl
    | cons c s =>
      dsimp only
      rw [if_neg (fun hbc => hs hbc.1 (congrArg some hbc.2)), ih]
      rfl

theorem scan_eq_ok_iff {s : Bytes} {segments : List Segment} :
    scan s = .ok segments ↔ Utf8.isValid s ∧ Scans s segments := by
  rw [scan]
  split
  · next hv =>
    constructor
    · intro h
      cases hs : scanFrom 0 s with
      | error e =>
        rw [hs] at h
        cases h
      | ok segments' =>
        rw [hs] at h
        obtain rfl := Except.ok.inj h
        exact ⟨hv, scans_of_scanFrom hs⟩
    · intro h
      rw [h.2.scanFrom_eq]
      rfl
  · next hv => exact iff_of_false (fun h => by cases h) (fun h => hv h.1)

/-! ## Rows of segments -/

theorem vars_prepend (text : Bytes) (segments : List Segment) :
    vars (prepend text segments) = vars segments := by
  fun_cases prepend text segments <;> rfl

theorem spellLiteral_append (a b : Bytes) :
    spellLiteral (a ++ b) = spellLiteral a ++ spellLiteral b :=
  List.flatMap_append

theorem flatMap_spell_prepend (text : Bytes) (segments : List Segment) :
    (prepend text segments).flatMap spell = spellLiteral text ++ segments.flatMap spell := by
  fun_cases prepend text segments with
  | case1 next segments =>
    rw [List.flatMap_cons, List.flatMap_cons, spell, spell, spellLiteral_append, List.append_assoc]
  | case2 _ _ ht =>
    rw [ht]
    rfl
  | case3 => rfl

theorem IsNormal.normalize_eq {segments : List Segment} (h : IsNormal segments)
    (hv : ∀ v ∈ vars segments, v.normalize = v) : normalize segments = segments := by
  induction segments with
  | nil => rfl
  | cons segment segments ih =>
    cases segment with
    | literal text =>
      obtain ⟨ht, hnext, h⟩ := h
      rw [normalize, ih h hv, prepend.eq_def]
      split
      · next next rest => exact absurd rfl (hnext next rest)
      · rw [if_neg ht]
    | var v =>
      obtain ⟨hv, hvs⟩ := List.forall_mem_cons.1 hv
      rw [normalize, hv, ih h hvs]

theorem prepend_ne_var (b : UInt8) (segments : List Segment) (v : Variable) (rest : List Segment) :
    prepend [b] segments ≠ var v :: rest := by
  fun_cases prepend [b] segments with
  | case2 _ _ h => exact absurd h (List.cons_ne_nil b [])
  | _ => simp

/-- A byte in front of a row comes directly before a variable only if the row begins with the
variable. -/
theorem backslashBeforeVariable_prepend {segments : List Segment}
    (h : IsNormal segments) {b : UInt8}
    (hb : b = Byte.backslash → ∀ v rest, segments ≠ var v :: rest) :
    backslashBeforeVariable (prepend [b] segments) = backslashBeforeVariable segments := by
  match segments, h with
  | [], _ => rfl
  | var v :: rest, _ =>
    have hb : b ≠ Byte.backslash := fun he => hb he v rest rfl
    simp [prepend, backslashBeforeVariable, hb]
  | [literal next], _ => rfl
  | literal (c :: next) :: var v :: rest, _ =>
    rw [prepend, backslashBeforeVariable, backslashBeforeVariable, List.singleton_append,
      List.getLast?_cons_cons]
  | literal _ :: literal next' :: rest, h => exact absurd rfl (h.2.1 next' rest)

/-! ## What is read -/

namespace Scans

variable {s : Bytes} {segments : List Segment}

theorem flatMap_spell (h : Scans s segments) : segments.flatMap spell = s := by
  induction h with
  | nil => rfl
  | var hbody _ ih =>
    rw [List.flatMap_cons, ih, spell, Variable.spell_eq, Variable.body_ofBody,
      Variable.eq_of_body? hbody]
    simp
  | escaped _ ih =>
    rw [flatMap_spell_prepend, ih]
    rfl
  | byte hb _ _ ih =>
    rw [flatMap_spell_prepend, ih]
    simp [spellLiteral, hb]

theorem isNormal (h : Scans s segments) : IsNormal segments :=
  isNormal_scanFrom (h.scanFrom_eq 0)

theorem normalize_var (h : Scans s segments) : ∀ v ∈ vars segments, v.normalize = v := by
  induction h with
  | nil => exact fun v hv => absurd hv List.not_mem_nil
  | var _ _ ih => exact List.forall_mem_cons.2 ⟨Variable.normalize_ofBody _, ih⟩
  | escaped _ ih | byte _ _ _ ih => rwa [vars_prepend]

theorem normalize_eq (h : Scans s segments) : normalize segments = segments :=
  h.isNormal.normalize_eq h.normalize_var

theorem head?_of_var {v : Variable} (h : Scans s (Segment.var v :: segments)) :
    s.head? = some Byte.openBrace := by
  generalize hl : Segment.var v :: segments = l at h
  cases h with
  | nil => exact nomatch hl
  | var => rfl
  | escaped | byte => exact absurd hl.symm (prepend_ne_var _ _ _ _)

/-- No literal that is read ends with a backslash before a variable. -/
theorem backslashBeforeVariable_eq (h : Scans s segments) :
    backslashBeforeVariable segments = false := by
  induction h with
  | nil => rfl
  | var _ _ ih => exact ih
  | escaped h ih =>
    rw [backslashBeforeVariable_prepend h.isNormal fun he => absurd he (by decide), ih]
  | byte hb hs h ih =>
    rw [backslashBeforeVariable_prepend h.isNormal, ih]
    rintro he v rest rfl
    exact hs he h.head?_of_var

end Scans

end Segment

namespace Pattern

variable {source : Bytes} {p : Pattern}

theorem parse_eq_ok_iff : parse source = .ok p ↔
    ∃ segments, Segment.scan source = .ok segments ∧ build source segments = .ok p :=
  bind_eq_ok

/-- The segments that a text is read into are put together as they are, and with this text. -/
theorem compile_eq_build {segments : List Segment} (hs : Segment.Scans source segments) :
    compile segments = build source segments := by
  rw [compile, hs.normalize_eq, hs.backslashBeforeVariable_eq, hs.flatMap_spell]
  rfl

/-- The segments of a pattern that a text spells make up this pattern again, and its text is that
text. None of their literals ends with a backslash before a variable. -/
theorem compile_segments_of_parse (h : parse source = .ok p) :
    p.source = source ∧ Segment.backslashBeforeVariable p.segments = false ∧
      compile p.segments = .ok p := by
  obtain ⟨segments, hscan, hbuild⟩ := parse_eq_ok_iff.1 h
  obtain ⟨-, hs⟩ := Segment.scan_eq_ok_iff.1 hscan
  obtain ⟨_, _, _, _, rfl⟩ := build_eq_ok_iff.1 hbuild
  exact ⟨rfl, hs.backslashBeforeVariable_eq, (compile_eq_build hs).trans hbuild⟩

/-- An escaped brace in front of a declaration whose rule has braces of its own. -/
theorem compile_segments_of_parse_escaped :
    let source := Bytes.ofString "/\\\x7b\x7bx:[0-9]\x7b2\x7d\x7d\\\x7b"
    ∃ p, parse source = .ok p ∧ p.source = source ∧
      Segment.backslashBeforeVariable p.segments = false ∧ compile p.segments = .ok p := by
  intro source
  have hsegments : (parse source).toOption.map (·.segments) =
      some [.literal (.ofString "/\x7b"),
        .var ⟨.ofString "x", .ofString "[0-9]\x7b2\x7d", false⟩, .literal (.ofString "\x7b")] := by
    decide +kernel
  obtain ⟨p, hp, -⟩ := exists_of_toOption_map hsegments
  exact ⟨p, hp, compile_segments_of_parse hp⟩

end Pattern

end RouteTable
