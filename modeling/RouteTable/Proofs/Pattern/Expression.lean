import Mathlib
import RouteTable.Proofs.Pattern.Accepted
import RouteTable.Proofs.Regex.Quoting
import RouteTable.Proofs.Regex.Reading

/-!
# The expression of a pattern

The expression that is put together from all segments is read segment by segment: a literal into
its characters, and a variable into a group around the expression that its rule is alone.

* `Segment.Reads`: the expressions that a row of segments is read into
* `exists_reads_of_foldlM`: the tokens of the segments are read into them
* `Pattern.Accepted.exists_reads`: so is the expression of a pattern
-/

namespace RouteTable

def Variable.closesQuotes (v : Variable) : Bool :=
  (Utf8.decode? v.rule).all Regex.closesQuotes

namespace Segment

open Regex

/-- The expressions that match one after the other what the characters of a text are. -/
def IsLiteral (cs : List Char) (rs : List Regex) : Prop :=
  List.Forall₂ (fun c r => ∃ i, r = .chars i (.single c.toNat false)) cs rs

/-- The expressions that a row of segments is read into, when the group of the first variable gets
the number `index`, given the numbers of groups within the rules. -/
inductive Reads : Nat → List Segment → List Nat → List Regex → Prop
  | nil (index : Nat) : Reads index [] [] []
  | literal {index : Nat} {cs : List Char} {segments : List Segment} {counts : List Nat}
      {ps rs : List Regex} (hps : IsLiteral cs ps) (rest : Reads index segments counts rs) :
      Reads index (literal (Utf8.encode cs) :: segments) counts (ps ++ rs)
  | var {index : Nat} {v : Variable} {r : Regex} (m : Nat) {segments : List Segment}
      {counts : List Nat} {rs : List Regex} (hr : Regex.ofBytes? v.rule = some r)
      (rest : Reads (index + 1 + r.groupCount) segments counts rs) :
      Reads index (var v :: segments) (r.groupCount :: counts)
        (group index none (r.renumber index m) :: rs)

/-! ## Literals -/

theorem foldlM_literals (cs : List Char) {s : Reader} (hflags : s.flags = {}) :
    ∃ ps s', (cs.map fun c => Token.literal c.toNat).foldlM Reader.step s = some s' ∧
      IsLiteral cs ps ∧ s'.level = ⟨s.level.branches, ps.reverse ++ s.level.items⟩ ∧
      s'.flags = {} ∧ s'.waiting = s.waiting ∧ s'.captures = s.captures := by
  induction cs generalizing s with
  | nil => exact ⟨[], s, rfl, .nil, rfl, hflags, rfl, rfl⟩
  | cons c cs ih =>
    obtain ⟨ps, s', hs', hps, hlevel, hf, hw, hc⟩ := @ih (s.pushLiteral c.toNat) hflags
    refine ⟨.chars s.charParts (.single c.toNat false) :: ps, s', hs', .cons ⟨_, rfl⟩ hps, ?_,
      hf, hw, hc⟩
    rw [hlevel]
    simp [Reader.pushLiteral, Reader.pushSet, Reader.push, Level.push, hflags]

/-! ## Variables -/

/-- An expression does not begin with a repetition. -/
theorem not_question_of_parse? {cs : List Char} {r : Regex} (h : parse? cs = some r)
    (cs' : List Char) : cs ≠ '?' :: cs' := by
  rintro rfl
  obtain ⟨ts, hts, h⟩ := Option.bind_eq_some_iff.1 h
  obtain ⟨s, hs, -⟩ := ofTokens?_eq_some_iff.1 h
  have hnext : Token.next? ('?' :: cs') = some (markable 0 (some 1) cs') := rfl
  rw [tokens?_cons, hnext] at hts
  obtain ⟨ts', -, rfl⟩ := Option.map_eq_some_iff.1 hts
  have hstep : Reader.step {} (markable 0 (some 1) cs').1 = none := by
    fun_cases markable 0 (some 1) cs' <;> rfl
  rw [List.foldlM_cons, hstep] at hs
  cases hs

theorem next?_group {cs : List Char} {r : Regex} (h : parse? cs = some r) (cs' : List Char) :
    Token.next? ('(' :: (cs ++ ')' :: cs')) = some (.openCapture none, cs ++ ')' :: cs') := by
  have hne : ∀ cs'', cs ++ ')' :: cs' ≠ '?' :: cs'' := by
    intro cs'' he
    cases cs with
    | nil => simp at he
    | cons c cs => exact not_question_of_parse? h cs (by simp at he; rw [he.1])
  exact group?.eq_3 _ (fun r he => hne _ he) hne

/-- The parentheses around a rule open and close a group, unless the name of a class ends behind
them. -/
theorem tokens?_group {cs : List Char} {r : Regex} (h : parse? cs = some r) (hq : closesQuotes cs) :
    ∃ ts, ofTokens? ts = some r ∧ ∀ cs', tokens? ('(' :: (cs ++ ')' :: cs')) =
      if endsNames cs || !holdsNameEnd cs' then
        (tokens? cs').map ((Token.openCapture none :: (ts ++ [Token.close])) ++ ·)
      else none := by
  obtain ⟨ts, hts, hr⟩ := Option.bind_eq_some_iff.1 h
  refine ⟨ts, hr, fun cs' => ?_⟩
  rw [tokens?_cons, next?_group h, Option.bind_some, tokens?_append hq hts,
    apply_ite (Option.map _), Option.map_map, Option.map_none]
  simp [Function.comp_def]

/-! ## Rows of segments -/

/-- The characters of a quoted text come first. -/
theorem tokens?_expression_literal (ds : List Char) {w : Bytes} {cs : List Char}
    (hcs : Utf8.decode? (expression (literal (Utf8.encode ds)) ++ w) = some cs) {ts : List Token}
    (ht : tokens? cs = some ts) :
    ∃ cs' ts', Utf8.decode? w = some cs' ∧ tokens? cs' = some ts' ∧
      ts = ds.map (fun c => .literal c.toNat) ++ ts' := by
  rw [expression, quote_encode, Utf8.decode?_encode_append] at hcs
  obtain ⟨cs', hcs', rfl⟩ := Option.map_eq_some_iff.1 hcs
  rw [tokens?_quoted] at ht
  obtain ⟨ts', ht', rfl⟩ := Option.map_eq_some_iff.1 ht
  exact ⟨cs', ts', hcs', ht', rfl⟩

/-- The characters of a variable's rule come first, between parentheses. -/
theorem decode?_expression_var {v : Variable} {ds : List Char} (hds : Utf8.decode? v.rule = some ds)
    (w : Bytes) : Utf8.decode? (expression (var v) ++ w) = (Utf8.decode? w).map fun cs =>
      '(' :: (ds ++ ')' :: cs) := by
  have hexpr : expression (var v) ++ w = Utf8.encode ('(' :: ds) ++ (Utf8.encode [')'] ++ w) := by
    rw [Utf8.encode_cons, Utf8.encode_of_decode? hds, expression]
    simp only [List.append_assoc]
    rfl
  rw [hexpr, Utf8.decode?_encode_append, Utf8.decode?_encode_append, Option.map_map]
  rfl

/-- The tokens of the group around a rule come first. -/
theorem tokens?_expression_var {v : Variable} {r : Regex} (hr : Regex.ofBytes? v.rule = some r)
    (hq : v.closesQuotes) {w : Bytes} {cs : List Char}
    (hcs : Utf8.decode? (expression (var v) ++ w) = some cs) {ts : List Token}
    (ht : tokens? cs = some ts) :
    ∃ cs' ts₁ ts', Utf8.decode? w = some cs' ∧ tokens? cs' = some ts' ∧
      ofTokens? ts₁ = some r ∧
      ts = (Token.openCapture none :: (ts₁ ++ [Token.close])) ++ ts' := by
  obtain ⟨ds, hds, hparse⟩ := Option.bind_eq_some_iff.1 hr
  rw [Variable.closesQuotes, hds] at hq
  rw [decode?_expression_var hds] at hcs
  obtain ⟨cs', hcs', rfl⟩ := Option.map_eq_some_iff.1 hcs
  obtain ⟨ts₁, hts₁, htokens⟩ := tokens?_group hparse hq
  rw [htokens] at ht
  split at ht
  · obtain ⟨ts', ht', rfl⟩ := Option.map_eq_some_iff.1 ht
    exact ⟨cs', ts₁, ts', hcs', ht', hts₁, rfl⟩
  · exact nomatch ht

/-- The tokens of a valid row of segments are read into the expressions of the segments. -/
theorem exists_reads_of_foldlM {names groups : List Bytes} {segments : List Segment}
    {counts : List Nat} (hv : validateWith RuleGroups.ofRule? names groups segments = .ok counts)
    (hq : ∀ v ∈ vars segments, v.closesQuotes) {cs : List Char}
    (hcs : Utf8.decode? (segments.flatMap expression) = some cs) {ts : List Token}
    (ht : tokens? cs = some ts) {s : Reader} (hflags : s.flags = {}) :
    ∃ rs s', ts.foldlM Reader.step s = some s' ∧ Reads (s.captures + 1) segments counts rs ∧
      s'.level = ⟨s.level.branches, rs.reverse ++ s.level.items⟩ ∧
      s'.waiting = s.waiting := by
  induction segments generalizing names groups counts cs ts s with
  | nil =>
    obtain rfl := Option.some.inj hcs
    rw [tokens?] at ht
    obtain rfl := Option.some.inj ht
    obtain rfl := Except.ok.inj hv
    exact ⟨[], s, rfl, .nil _, rfl, rfl⟩
  | cons segment segments ih =>
    rw [List.flatMap_cons] at hcs
    cases segment with
    | literal text =>
      obtain ⟨htext, hrest⟩ := validateWith_literal_eq_ok.1 hv
      obtain ⟨ds, rfl⟩ := Utf8.exists_eq_encode_of_isValid htext
      obtain ⟨cs', ts', hcs', ht', rfl⟩ := tokens?_expression_literal ds hcs ht
      obtain ⟨ps, s₁, hs₁, hps, hlevel₁, hflags₁, hwaiting₁, hcaptures₁⟩ :=
        foldlM_literals ds hflags
      obtain ⟨rs, s', hs', hrs, hlevel, hwaiting⟩ := ih hrest hq hcs' ht' hflags₁
      rw [hcaptures₁] at hrs
      refine ⟨ps ++ rs, s', ?_, .literal hps hrs, ?_, hwaiting.trans hwaiting₁⟩
      · rw [List.foldlM_append, hs₁]
        exact hs'
      · rw [hlevel, hlevel₁, List.reverse_append, List.append_assoc]
    | var v =>
      obtain ⟨r, groups', counts', -, hr, hrest, rfl⟩ := exists_ofBytes?_of_validateWith hv
      obtain ⟨hqv, hq⟩ := List.forall_mem_cons.1 hq
      obtain ⟨cs', ts₁, ts', hcs', ht', hts₁, rfl⟩ := tokens?_expression_var hr hqv hcs ht
      obtain ⟨charParts, hgroup⟩ := foldlM_group hts₁ hflags
      obtain ⟨rs, s', hs', hrs, hlevel, hwaiting⟩ := @ih _ _ _ hrest hq _ hcs' _ ht' { s with
        level :=
          s.level.push (.group (s.captures + 1) none (r.renumber (s.captures + 1) s.charParts))
        captures := s.captures + 1 + r.groupCount
        charParts := charParts
        repeated := false } hflags
      refine ⟨.group (s.captures + 1) none (r.renumber (s.captures + 1) s.charParts) :: rs,
        s', ?_, ?_, ?_, hwaiting⟩
      · rw [List.foldlM_append, hgroup]
        exact hs'
      · refine .var s.charParts hr ?_
        rwa [Nat.add_right_comm _ 1]
      · rw [hlevel, List.reverse_cons, List.append_assoc]
        rfl

theorem exists_reads_of_ofBytes? {segments : List Segment} {counts : List Nat}
    (hv : validate segments = .ok counts) (hq : ∀ v ∈ vars segments, v.closesQuotes) {r : Regex}
    (hr : Regex.ofBytes? (segments.flatMap expression) = some r) :
    ∃ rs, r = Regex.concat rs ∧ Reads 1 segments counts rs := by
  obtain ⟨cs, ts, s, hcs, hts, hs, -, hregex⟩ := ofBytes?_eq_some_iff.1 hr
  obtain ⟨rs, s', hs', hrs, hlevel, -⟩ :=
    @exists_reads_of_foldlM _ _ _ _ hv hq _ hcs _ hts {} rfl
  obtain rfl := Option.some.inj (hs.symm.trans hs')
  refine ⟨rs, ?_, hrs⟩
  rw [hregex, hlevel]
  simp [Level.toRegex, Level.branch, choice]

end Segment

namespace Pattern.Accepted

variable {p : Pattern}

theorem exists_reads (h : p.Accepted) (hvars : Segment.vars p.segments ≠ [])
    (hq : ∀ v ∈ Segment.vars p.segments, v.closesQuotes) :
    ∃ m counts rs, p.matcher = some m ∧ Segment.validate p.segments = .ok counts ∧
      m.captures = ((Segment.vars p.segments).map (·.name)).zip (Segment.groupIndices 1 counts) ∧
      m.regex = Regex.concat rs ∧ Segment.Reads 1 p.segments counts rs := by
  obtain ⟨counts, hc, hm⟩ := h.exists_counts
  cases hp : p.matcher with
  | none =>
    rw [hp] at hm
    exact absurd (makeMatcher_eq_ok_none_iff.1 hm) hvars
  | some m =>
    rw [hp] at hm
    obtain ⟨-, hr, hcaptures⟩ := makeMatcher_eq_ok_some_iff.1 hm
    obtain ⟨rs, hregex, hrs⟩ := Segment.exists_reads_of_ofBytes? hc hq hr
    exact ⟨m, counts, rs, rfl, hc, hcaptures, hregex, hrs⟩

end Pattern.Accepted

end RouteTable
