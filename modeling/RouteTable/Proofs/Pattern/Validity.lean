import RouteTable.Proofs.Pattern.Validation
import RouteTable.Proofs.Regex.Search

/-!
# Which rows of segments are valid

Whether a row is valid does not depend on the order of its segments: each of them is valid alone,
and no two of them have a name in common. Names are identifiers, which a regular expression
describes.

* `Variable.IsIdentifier`: the grammar of names
* `Variable.isName_iff`: names are checked according to their grammar
* `Segment.exists_validate_iff`: which rows are valid, what is then counted, and that their order is
  irrelevant
-/

namespace RouteTable

/-! ## Names -/

namespace Variable

def nameRule : Bytes :=
  .ofString "[$_\\p\x7bL\x7d][$_\\p\x7bL\x7d\\p\x7bNd\x7d]*"

/-- The text is matched as a whole by the grammar of names. -/
def IsIdentifier (name : Bytes) : Prop :=
  ∃ r text, Regex.ofBytes? nameRule = some r ∧ Utf8.decode? name = some text ∧
    (r.match? text).isSome

def startSet : CharSet where
  items := [.range 36 36, .range 95 95, .named (.category .letter) false]

def nextSet : CharSet where
  items := startSet.items ++ [.named (.category .decimalDigit) false]

theorem ofBytes?_nameRule : Regex.ofBytes? nameRule =
    some (.seq (.chars 0 startSet) (.times 0 none true (.chars 1 nextSet))) := by
  decide +kernel

theorem beq_eq_between (c d : Char) :
    (c == d) = (decide (d.toNat ≤ c.toNat) && decide (c.toNat ≤ d.toNat)) := by
  rw [Bool.eq_iff_iff, beq_iff_eq, ← Char.toNat_inj]
  simp only [Bool.and_eq_true, decide_eq_true_eq]
  omega

theorem contains_startSet (c : Char) : startSet.contains c.toNat = startsName c := by
  rw [startsName, beq_eq_between c '$', beq_eq_between c '_']
  simp [startSet, CharSet.contains, CharItem.containsAny, CharClass.contains, Bool.or_assoc]

theorem contains_nextSet (c : Char) : nextSet.contains c.toNat = continuesName c := by
  rw [continuesName, ← contains_startSet]
  simp [nextSet, CharSet.contains, CharItem.containsAny, CharClass.contains, startSet,
    Bool.or_assoc]

open Regex in
/-- One character of a set, and any number of characters of another one behind it. -/
theorem isSome_match?_name {i j : Nat} {first next : CharSet} {greedy : Bool} {text : List Char} :
    ((Regex.seq (.chars i first) (.times 0 none greedy (.chars j next))).match? text).isSome ↔
      ∃ c cs, text = c :: cs ∧ first.contains c.toNat ∧
        ∀ d ∈ cs, next.contains d.toNat := by
  rw [isSome_match?_iff]
  constructor
  · rintro ⟨q, ms, hq, h⟩
    obtain ⟨m, _, ms', hfirst, hrest, -⟩ := leads_cons_iff.1 (leads_seq_iff.1 h)
    obtain ⟨c, htext, hc, -, -⟩ := leads_chars_iff.1 hfirst
    exact ⟨c, m.rest, htext, hc,
      exists_leads_again_chars_iff.1 ⟨q, ms', hq, (leads_star_iff rfl).1 hrest⟩⟩
  · rintro ⟨c, cs, rfl, hc, hcs⟩
    obtain ⟨q, ms, hq, h⟩ :=
      (@exists_leads_again_chars_iff ⟨some c, 1, cs⟩ greedy j next).2 hcs
    exact ⟨q, ms, hq, leads_seq_iff.2 (.read hc ((leads_star_iff rfl).2 h))⟩

theorem isName_iff {name : Bytes} : isName name ↔ IsIdentifier name := by
  simp only [IsIdentifier, ofBytes?_nameRule, Option.some.injEq, exists_and_left, exists_eq_left',
    isSome_match?_name, contains_startSet, contains_nextSet]
  rw [isName]
  constructor
  · intro h
    split at h
    · next c cs hname =>
      rw [Bool.and_eq_true, List.all_eq_true] at h
      exact ⟨c :: cs, hname, c, cs, rfl, h⟩
    · cases h
  · rintro ⟨_, hname, c, cs, rfl, h⟩
    rw [hname]
    exact Bool.and_eq_true_iff.2 ⟨h.1, List.all_eq_true.2 h.2⟩

end Variable

/-! ## Rows -/

namespace Segment

/-- A row of segments is valid if and only if its literals are in UTF-8, the names of its variables
are identifiers and differ, their rules compile and are not empty, and no two of them have a group
of the same name. The answer is then the numbers of groups of the rules, in the order of the
variables. No row becomes valid or invalid when its segments change places. All this holds whatever
`groupsOf?` tells of rules: which of them compile, and the groups that they have. What the check is
told are the regular expressions, with the names and the number of their groups. -/
theorem exists_validate_iff (groupsOf? : Bytes → Option RuleGroups) (row : List Segment) :
    ((∃ counts, validateWith groupsOf? [] [] row = .ok counts) ↔
      (∀ text, literal text ∈ row → Utf8.isValid text) ∧
        (∀ v ∈ vars row, Variable.IsIdentifier v.name) ∧ ((vars row).map (·.name)).Nodup ∧
        (∀ v ∈ vars row, v.rule ≠ [] ∧ (groupsOf? v.rule).isSome) ∧
        (vars row).Pairwise fun v w =>
          ∀ name ∈ v.namesOf groupsOf?, name ∉ w.namesOf groupsOf?) ∧
    (∀ counts, validateWith groupsOf? [] [] row = .ok counts →
      (vars row).map (fun v => (groupsOf? v.rule).map RuleGroups.count) = counts.map some) ∧
    (∀ row', row'.Perm row → ((∃ counts, validateWith groupsOf? [] [] row' = .ok counts) ↔
      ∃ counts, validateWith groupsOf? [] [] row = .ok counts)) ∧
    validate row = validateWith RuleGroups.ofRule? [] [] row ∧
    ∀ v : Variable,
      (RuleGroups.ofRule? v.rule).map RuleGroups.count =
        (Regex.ofBytes? v.rule).map Regex.groupCount ∧
      ∀ name, name ∈ v.namesOf RuleGroups.ofRule? ↔
        ∃ group ∈ v.groupNames, Utf8.encode group = name := by
  refine ⟨?_, fun counts => map_count_of_validateWith, fun row' hp => ?_, rfl, fun v => ?_⟩
  · simp only [exists_validateWith_iff, ← Variable.isName_iff]
    constructor
    · exact fun h => ⟨h.encoded, h.named, h.nodup, h.ruled, h.apart⟩
    · rintro ⟨hencoded, hnamed, hnodup, hruled, hapart⟩
      exact ⟨hencoded, hnamed, hruled, hnodup, hapart,
        fun v _ => ⟨List.not_mem_nil, fun _ _ => List.not_mem_nil⟩⟩
  · simp only [exists_validateWith_iff]
    exact ⟨fun h => h.of_perm hp.symm, fun h => h.of_perm hp⟩
  · exact ⟨RuleGroups.map_count_ofRule? v.rule, fun name => Variable.mem_namesOf_ofRule?_iff⟩

-- The first rule and the last one have a group of the same name.
example : validate [.var ⟨.ofString "x", .ofString "(?P<g>a)", false⟩,
    .var ⟨.ofString "y", .ofString "b", false⟩,
    .literal (.ofString "/"), .var ⟨.ofString "z", .ofString "(c)(?P<g>d)", false⟩] =
    .error (.duplicateGroup (.ofString "g") (.ofString "z")) := by
  decide +kernel

end Segment

end RouteTable
