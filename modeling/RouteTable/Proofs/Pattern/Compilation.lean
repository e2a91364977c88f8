import RouteTable.Proofs.Pattern.Prefix
import RouteTable.Proofs.Pattern.Spelling

/-!
# When the rules of a pattern go together

Each rule of a valid row of segments is a regular expression alone. Between the parentheses of its
group and next to the other segments it may be none: a quoted text that it does not close takes in
the parenthesis, and what begins like a named class in one of its bracket expressions becomes one if
a later rule holds the end of a name. Nothing else can go wrong.

* `Variable.endsNames`, `Variable.holdsNameEnd`: the names of classes that begin or end in a rule
* `Segment.Combines`: the rules do not get in each other's way
* `Segment.isSome_tokens?_iff`: the expression of a row then has tokens
* `Segment.Reads.groupNames_eq`: its named groups are those of the rules
* `Pattern.exists_makeMatcher_of_combines`: whether a valid row has a matcher
-/

namespace RouteTable

namespace Regex

variable {w : List Char}

/-! ## Ends of names -/

theorem holdsNameEnd_cons {c : Char} (h : c ≠ ':') (w : List Char) :
    holdsNameEnd (c :: w) = holdsNameEnd w := by
  rw [holdsNameEnd, cut?, if_neg (by simp [h.symm]), Option.isSome_map, holdsNameEnd]

theorem holdsNameEnd_append_paren (s w : List Char) :
    holdsNameEnd (s ++ ')' :: w) = (holdsNameEnd s || holdsNameEnd w) := by
  rw [holdsNameEnd, holdsNameEnd, holdsNameEnd]
  cases h : cut? [':', ']'] s with
  | none =>
    rw [cut?_append_paren (by decide) (by decide) h, Option.isSome_map, Option.isSome_none,
      Bool.false_or]
  | some x => rw [cut?_append h, Option.isSome_some, Option.isSome_some, Bool.true_or]

/-- No quoted character begins with a bracket, or holds the end of a name. -/
theorem holdsNameEnd_quoteChar (c : Char) (h : w.head? ≠ some ']') :
    (quoteChar c ++ w).head? ≠ some ']' ∧ holdsNameEnd (quoteChar c ++ w) = holdsNameEnd w := by
  rw [quoteChar]
  split
  · refine ⟨by simp, ?_⟩
    simp only [List.cons_append, List.nil_append]
    rw [holdsNameEnd_cons (by decide), holdsNameEnd_cons (by decide), holdsNameEnd_cons (by decide),
      holdsNameEnd_cons (by decide)]
  split
  · next hc =>
    have hne : ∀ {d : Char},
        (0x80 ≤ d.toNat || CharClass.word.contains d.toNat) = false → c ≠ d := by
      rintro d hd rfl
      exact absurd (hc.symm.trans hd) (by decide)
    exact ⟨fun he => hne (by decide) (Option.some.inj he),
      holdsNameEnd_cons (hne (by decide)) w⟩
  · refine ⟨by simp, ?_⟩
    rw [List.cons_append, holdsNameEnd_cons (by decide), List.cons_append, List.nil_append]
    by_cases hc : c = ':'
    · subst hc
      have hp : ¬ [':', ']'].isPrefixOf (':' :: w) = true := by
        cases w with
        | nil => simp
        | cons d w =>
          have hd : ']' ≠ d := fun he => h (congrArg some he.symm)
          simp [hd]
      rw [holdsNameEnd, cut?, if_neg hp, Option.isSome_map, holdsNameEnd]
    · exact holdsNameEnd_cons hc w

theorem holdsNameEnd_quoted (cs : List Char) (h : w.head? ≠ some ']') :
    (cs.flatMap quoteChar ++ w).head? ≠ some ']' ∧
      holdsNameEnd (cs.flatMap quoteChar ++ w) = holdsNameEnd w := by
  induction cs with
  | nil => exact ⟨h, rfl⟩
  | cons c cs ih =>
    obtain ⟨hhead, hends⟩ := holdsNameEnd_quoteChar c ih.1
    rw [List.flatMap_cons, List.append_assoc]
    exact ⟨hhead, hends.trans ih.2⟩

end Regex

/-! ## Rows of segments -/

namespace Variable

/-- All names of classes end in the rule that begin in its bracket expressions. -/
def endsNames (v : Variable) : Bool :=
  (Utf8.decode? v.rule).all Regex.endsNames

/-- A name of a class that begins in front of the rule ends in it. -/
def holdsNameEnd (v : Variable) : Bool :=
  (Utf8.decode? v.rule).any Regex.holdsNameEnd

end Variable

namespace Segment

open Regex

/-- No rule gets in the way of another one: each closes its quoted texts, and no rule holds the end
of a name that begins in an earlier one. -/
def Combines (segments : List Segment) : Prop :=
  (∀ v ∈ vars segments, v.closesQuotes) ∧
    (vars segments).Pairwise fun v w => v.endsNames ∨ w.holdsNameEnd = false

instance : DecidablePred Combines := fun segments =>
  inferInstanceAs (Decidable ((∀ v ∈ vars segments, v.closesQuotes) ∧
    (vars segments).Pairwise fun v w => v.endsNames ∨ w.holdsNameEnd = false))

variable {names groups : List Bytes} {segments : List Segment} {counts : List Nat}

/-- If all rules close their quoted texts, then the expression of a valid row has tokens if and only
if no rule holds the end of a name that begins in an earlier one. -/
theorem isSome_tokens?_iff (hv : validateWith RuleGroups.ofRule? names groups segments = .ok counts)
    (hq : ∀ v ∈ vars segments, v.closesQuotes) :
    ∃ cs, Utf8.decode? (segments.flatMap expression) = some cs ∧ cs.head? ≠ some ']' ∧
      (holdsNameEnd cs ↔ ∃ v ∈ vars segments, v.holdsNameEnd) ∧
      ((tokens? cs).isSome ↔
        (vars segments).Pairwise fun v w => v.endsNames ∨ w.holdsNameEnd = false) := by
  induction segments generalizing names groups counts with
  | nil =>
    refine ⟨[], rfl, by decide, iff_of_false (by decide) ?_,
      iff_of_true (by rw [tokens?]; rfl) List.Pairwise.nil⟩
    rintro ⟨v, hv, -⟩
    exact absurd hv List.not_mem_nil
  | cons segment segments ih =>
    rw [List.flatMap_cons]
    cases segment with
    | literal text =>
      obtain ⟨htext, hrest⟩ := validateWith_literal_eq_ok.1 hv
      obtain ⟨ds, rfl⟩ := Utf8.exists_eq_encode_of_isValid htext
      obtain ⟨cs, hcs, hhead, hends, htokens⟩ := ih hrest hq
      obtain ⟨hhead', hends'⟩ := holdsNameEnd_quoted ds hhead
      refine ⟨ds.flatMap quoteChar ++ cs, ?_, hhead', ?_, ?_⟩
      · rw [expression, quote_encode, Utf8.decode?_encode_append, hcs, Option.map_some]
      · rw [hends', hends, vars]
      · rw [tokens?_quoted, Option.isSome_map, htokens, vars]
    | var v =>
      obtain ⟨r, _, _, -, hr, hrest, rfl⟩ := exists_ofBytes?_of_validateWith hv
      obtain ⟨hqv, hq⟩ := List.forall_mem_cons.1 hq
      obtain ⟨cs, hcs, -, hends, htokens⟩ := ih hrest hq
      obtain ⟨ds, hds, hparse⟩ := Option.bind_eq_some_iff.1 hr
      rw [Variable.closesQuotes, hds] at hqv
      obtain ⟨ts, -, hgroup⟩ := tokens?_group hparse hqv
      refine ⟨'(' :: (ds ++ ')' :: cs), ?_, by simp, ?_, ?_⟩
      · rw [decode?_expression_var hds, hcs, Option.map_some]
      · rw [holdsNameEnd_cons (by decide), holdsNameEnd_append_paren, Bool.or_eq_true, hends, vars,
          List.exists_mem_cons_iff, Variable.holdsNameEnd, hds, Option.any_some]
      · -- The literals behind the rule hold no end of a name, so only the rules behind it matter.
        have hlater : (endsNames ds || !holdsNameEnd cs) = true ↔
            ∀ w ∈ vars segments, endsNames ds ∨ w.holdsNameEnd = false := by
          rw [Bool.or_eq_true, Bool.not_eq_true', ← Bool.not_eq_true, hends]
          cases endsNames ds <;> simp
        rw [hgroup, vars, List.pairwise_cons, Variable.endsNames, hds, Option.all_some,
          ← htokens, ← hlater]
        split
        · next hc => rw [Option.isSome_map, and_iff_right hc]
        · next hc => exact iff_of_false Bool.false_ne_true fun h => hc h.1

/-- If all rules but the last one close their quoted texts, then the expression of a valid row is
one if and only if the rules do not get in each other's way. -/
theorem isSome_ofBytes?_iff (hv : validate segments = .ok counts)
    (hq : ∀ v ∈ (vars segments).dropLast, v.closesQuotes) :
    (Regex.ofBytes? (segments.flatMap expression)).isSome ↔ Combines segments := by
  constructor
  · intro h
    obtain ⟨r, hr⟩ := Option.isSome_iff_exists.1 h
    have hall := closesQuotes_of_ofBytes? hv hq hr
    obtain ⟨cs, ts, -, hcs, hts, -⟩ := ofBytes?_eq_some_iff.1 hr
    obtain ⟨cs', hcs', -, -, htokens⟩ := isSome_tokens?_iff hv hall
    obtain rfl := Option.some.inj (hcs.symm.trans hcs')
    exact ⟨hall, htokens.1 (Option.isSome_iff_exists.2 ⟨ts, hts⟩)⟩
  · rintro ⟨hall, hnames⟩
    obtain ⟨cs, hcs, -, -, htokens⟩ := isSome_tokens?_iff hv hall
    obtain ⟨ts, hts⟩ := Option.isSome_iff_exists.1 (htokens.2 hnames)
    obtain ⟨rs, u, hu, -, -, hw⟩ := exists_reads_of_foldlM hv hall hcs hts (s := {}) rfl
    refine Option.isSome_iff_exists.2 ⟨u.level.toRegex, ?_⟩
    exact ofBytes?_eq_some_iff.2 ⟨cs, ts, u, hcs, hts, hu, hw, rfl⟩

/-! ## Names of groups -/

theorem groupNames_renumber (n m : Nat) (r : Regex) :
    (r.renumber n m).groupNames = r.groupNames := by
  induction r with
  | seq r₁ r₂ ih₁ ih₂ | alt r₁ r₂ ih₁ ih₂ =>
    rw [renumber, Regex.groupNames, Regex.groupNames, ih₁, ih₂]
  | times least extra greedy r ih => exact ih
  | group index name r ih => rw [renumber, Regex.groupNames, Regex.groupNames, ih]
  | _ => rfl

theorem groupNames_concat (rs : List Regex) :
    (Regex.concat rs).groupNames = rs.flatMap Regex.groupNames := by
  fun_induction Regex.concat rs with
  | case1 => rfl
  | case2 r => rw [List.flatMap_cons, List.flatMap_nil, List.append_nil]
  | case3 r rs _ ih => rw [Regex.groupNames, ih, List.flatMap_cons]

theorem Reads.groupNames_eq {index : Nat} {rs : List Regex} (h : Reads index segments counts rs) :
    rs.flatMap Regex.groupNames = (vars segments).flatMap Variable.groupNames := by
  induction h with
  | nil => rfl
  | literal hps _ ih =>
    have hnone : ∀ {cs : List Char} {ps : List Regex},
        IsLiteral cs ps → ps.flatMap Regex.groupNames = [] := by
      intro cs ps hps
      induction hps with
      | nil => rfl
      | cons hr _ ih =>
        obtain ⟨i, rfl⟩ := hr
        exact ih
    rw [List.flatMap_append, hnone hps, ih, List.nil_append, vars]
  | var m hr _ ih =>
    rw [List.flatMap_cons, ih, vars, List.flatMap_cons, Variable.groupNames, hr, Regex.groupNames,
      groupNames_renumber]
    rfl

end Segment

/-! ## Patterns -/

namespace Pattern

variable {segments : List Segment} {counts : List Nat} {text : Bytes}

theorem segmentParse_eq_ok_iff : Segment.parse text = .ok segments ↔
    Segment.scan text = .ok segments ∧ ∃ counts, Segment.validate segments = .ok counts := by
  rw [Segment.parse, bind_eq_ok]
  constructor
  · rintro ⟨segments', hscan, h⟩
    split at h
    · next counts hv =>
      obtain rfl := Except.ok.inj h
      exact ⟨hscan, counts, hv⟩
    · exact nomatch h
  · rintro ⟨hscan, counts, hv⟩
    exact ⟨segments, hscan, by rw [hv]⟩

/-- What a pattern is read from has valid segments, and these are the segments of the pattern. -/
theorem segmentParse_of_parse {p : Pattern} (h : parse text = .ok p) :
    Segment.parse text = .ok p.segments := by
  obtain ⟨segments, hscan, hbuild⟩ := parse_eq_ok_iff.1 h
  obtain ⟨counts, _, hv, -, rfl⟩ := build_eq_ok_iff.1 hbuild
  exact segmentParse_eq_ok_iff.2 ⟨hscan, counts, hv⟩

/-- A valid row without variables needs no matcher, and its expression is always one. So a valid row
has a matcher or needs none if and only if its expression is one. -/
theorem exists_makeMatcher_iff (hv : Segment.validate segments = .ok counts) :
    (∃ matcher, makeMatcher segments counts = .ok matcher) ↔
      (Regex.ofBytes? (segments.flatMap Segment.expression)).isSome := by
  constructor
  · rintro ⟨_ | m, hm⟩
    · have hvars : Segment.vars segments = [] := makeMatcher_eq_ok_none_iff.1 hm
      have hc : Segment.Combines segments := by
        rw [Segment.Combines, hvars]
        exact ⟨List.forall_mem_nil _, List.Pairwise.nil⟩
      exact (Segment.isSome_ofBytes?_iff hv fun v h => hc.1 v (List.dropLast_subset _ h)).2 hc
    · exact Option.isSome_iff_exists.2 ⟨m.regex, (makeMatcher_eq_ok_some_iff.1 hm).2.1⟩
  · intro h
    obtain ⟨r, hr⟩ := Option.isSome_iff_exists.1 h
    by_cases hvars : Segment.vars segments = []
    · exact ⟨none, makeMatcher_eq_ok_none_iff.2 hvars⟩
    · exact ⟨some ⟨r, _⟩, makeMatcher_eq_ok_some_iff.2 ⟨hvars, hr, rfl⟩⟩

theorem exists_parse_iff (hscan : Segment.scan text = .ok segments)
    (hv : Segment.validate segments = .ok counts) :
    (∃ p, parse text = .ok p) ↔ ∃ matcher, makeMatcher segments counts = .ok matcher := by
  constructor
  · rintro ⟨p, hp⟩
    obtain ⟨segments', hscan', hbuild⟩ := parse_eq_ok_iff.1 hp
    obtain rfl := Except.ok.inj (hscan.symm.trans hscan')
    obtain ⟨counts', matcher, hv', hm, -⟩ := build_eq_ok_iff.1 hbuild
    obtain rfl := Except.ok.inj (hv.symm.trans hv')
    exact ⟨matcher, hm⟩
  · rintro ⟨matcher, hm⟩
    exact ⟨_, parse_eq_ok_iff.2 ⟨segments, hscan,
      build_eq_ok_iff.2 ⟨counts, matcher, hv, hm, rfl⟩⟩⟩

/-- A valid row of segments has a matcher, or needs none, if its rules do not get in each other's
way, and only then as long as all rules but the last one close their quoted texts. Nothing but its
expression can fail. The named groups of the matcher are those of the rules, and if no rule has two
of one name, then the matcher has not either. A text that is read into these segments spells a
pattern if and only if they have a matcher, and a text that spells a pattern always spells the valid
segments of this pattern. -/
theorem exists_makeMatcher_of_combines (hv : Segment.validate segments = .ok counts) :
    (Segment.Combines segments → ∃ matcher, makeMatcher segments counts = .ok matcher) ∧
    ((∀ v ∈ (Segment.vars segments).dropLast, v.closesQuotes) →
      (∃ matcher, makeMatcher segments counts = .ok matcher) → Segment.Combines segments) ∧
    (∀ fault, makeMatcher segments counts = .error fault →
      fault = .cannotCompile (segments.flatMap Segment.expression)) ∧
    (∀ m, Segment.Combines segments → makeMatcher segments counts = .ok (some m) →
      m.regex.groupNames = (Segment.vars segments).flatMap Variable.groupNames ∧
      ((∀ v ∈ Segment.vars segments, v.groupNames.Nodup) → m.regex.groupNames.Nodup)) ∧
    (∀ text, Segment.scan text = .ok segments → Segment.parse text = .ok segments ∧
      ((∃ p, parse text = .ok p) ↔ ∃ matcher, makeMatcher segments counts = .ok matcher)) ∧
    ∀ text p, parse text = .ok p → Segment.parse text = .ok p.segments := by
  rw [exists_makeMatcher_iff hv]
  refine ⟨fun hc => ?_, fun hq => (Segment.isSome_ofBytes?_iff hv hq).1,
    fun _ => eq_cannotCompile_of_makeMatcher, fun m hc hm => ?_, fun text hscan => ⟨?_, ?_⟩,
    fun text p => segmentParse_of_parse⟩
  · exact (Segment.isSome_ofBytes?_iff hv fun v h => hc.1 v (List.dropLast_subset _ h)).2 hc
  · obtain ⟨-, hr, -⟩ := makeMatcher_eq_ok_some_iff.1 hm
    obtain ⟨rs, hregex, hrs⟩ := Segment.exists_reads_of_ofBytes? hv hc.1 hr
    have hnames : m.regex.groupNames = (Segment.vars segments).flatMap Variable.groupNames := by
      rw [hregex, Segment.groupNames_concat, hrs.groupNames_eq]
    exact ⟨hnames, fun hn => hnames ▸ Segment.nodup_groupNames hv hn⟩
  · exact segmentParse_eq_ok_iff.2 ⟨hscan, counts, hv⟩
  · rw [exists_parse_iff hscan hv, exists_makeMatcher_iff hv]

/-- A named class and a quoted parenthesis, and at last what begins like a named class and is none.
-/
theorem exists_makeMatcher_of_combines_classes :
    let text := Bytes.ofString "\x7bx:[[:digit:]]\\Q)\\E\x7d/\x7by:[[:a]\x7d"
    ∃ segments counts, Segment.validate segments = .ok counts ∧
      Segment.parse text = .ok segments ∧
      Segment.Combines segments ∧ ∃ p, parse text = .ok p := by
  intro text
  let row := [Segment.var ⟨.ofString "x", .ofString "[[:digit:]]\\Q)\\E", false⟩,
    .literal (.ofString "/"), .var ⟨.ofString "y", .ofString "[[:a]", false⟩]
  have hscan : (Segment.scan text).toOption.map id = some row := by decide +kernel
  have hv : (Segment.validate row).toOption.map id = some [0, 0] := by decide +kernel
  have hc : Segment.Combines row := by decide +kernel
  obtain ⟨_, hscan, rfl⟩ := exists_of_toOption_map hscan
  obtain ⟨counts, hv, -⟩ := exists_of_toOption_map hv
  obtain ⟨hmatcher, -, -, -, htext, -⟩ := exists_makeMatcher_of_combines hv
  obtain ⟨hparse, hiff⟩ := htext text hscan
  exact ⟨_, counts, hv, hparse, hc, hiff.2 (hmatcher hc)⟩

/-- A quoted text that is not closed takes in the parenthesis of its group, and in the other pattern
the second rule ends the name of a class that begins in the first one. The segments of both texts
are valid. -/
theorem exists_makeMatcher_of_combines_apart :
    let unclosed := Bytes.ofString "\x7bx:\\Qa\x7d"
    let named := Bytes.ofString "\x7bx:[[:a]\x7d\x7by:[b:]\x7d"
    (∃ segments, Segment.parse unclosed = .ok segments) ∧
      parse unclosed = .error ⟨unclosed, .cannotCompile (.ofString "(\\Qa)")⟩ ∧
      (∃ segments, Segment.parse named = .ok segments) ∧
      parse named = .error ⟨named, .cannotCompile (.ofString "([[:a])([b:])")⟩ := by
  intro unclosed named
  have hunclosed : (Segment.parse unclosed).toOption.map List.length = some 1 := by decide +kernel
  have hnamed : (Segment.parse named).toOption.map List.length = some 2 := by decide +kernel
  obtain ⟨row, hrow, -⟩ := exists_of_toOption_map hunclosed
  obtain ⟨row', hrow', -⟩ := exists_of_toOption_map hnamed
  exact ⟨⟨row, hrow⟩, by decide +kernel, ⟨row', hrow'⟩, by decide +kernel⟩

end Pattern

end RouteTable
