import RouteTable.Pattern.Validity
import RouteTable.Proofs.Utf8.Decoding

/-!
# The check of a row of segments

A row is checked from left to right, with the names of variables and of groups that were met so far,
and the check stops at the first fault. So what is asked of a row depends on what was met in front
of it. It does not depend on where the answers about rules come from.

* `validateWith_literal_eq_ok`, `validateWith_var_eq_ok`: what is checked of a segment
* `exists_addGroups_iff`: when the names of the groups of a rule are accepted
* `Segment.ValidBehind`: what is asked of a row behind given names
* `Segment.exists_validateWith_iff`: a row passes the check if and only if it meets what is asked of
  it
* `map_count_of_validateWith`: the answer for a row that passes
* `exists_ofBytes?_of_validateWith`: the rules of a row that passes are regular expressions
* `exists_faultOf`: the fault that is found is one of a segment
-/

namespace RouteTable

theorem bind_eq_ok {ε α β : Type} {x : Except ε α} {f : α → Except ε β} {b : β} :
    x >>= f = .ok b ↔ ∃ a, x = .ok a ∧ f a = .ok b := by
  cases x with
  | error e => exact iff_of_false (nomatch ·) (fun ⟨_, h, _⟩ => nomatch h)
  | ok a =>
    constructor
    · exact fun h => ⟨a, rfl, h⟩
    · intro h'
      obtain ⟨a', ha, h⟩ := h'
      obtain rfl := Except.ok.inj ha
      exact h

theorem bind_eq_error_iff {ε α β : Type} {x : Except ε α} {f : α → Except ε β} {e : ε} :
    x >>= f = .error e ↔ x = .error e ∨ ∃ a, x = .ok a ∧ f a = .error e := by
  cases x with
  | error e' =>
    constructor
    · exact fun h => .inl (congrArg Except.error (Except.error.inj h))
    · rintro (h | ⟨_, h, -⟩)
      · exact congrArg Except.error (Except.error.inj h)
      · exact nomatch h
  | ok a =>
    constructor
    · exact fun h => .inr ⟨a, rfl, h⟩
    · rintro (h | ⟨a', ha, h⟩)
      · exact nomatch h
      · obtain rfl := Except.ok.inj ha
        exact h

theorem bind_pure_eq_error {ε α β : Type} {x : Except ε α} {f : α → β} {e : ε}
    (h : (x >>= fun a => pure (f a)) = .error e) : x = .error e :=
  (bind_eq_error_iff.1 h).resolve_right fun ⟨_, _, h⟩ => nomatch h

/-! ## Rules -/

theorem RuleGroups.map_count_ofRule? (rule : Bytes) :
    (ofRule? rule).map count = (Regex.ofBytes? rule).map Regex.groupCount := by
  rw [ofRule?, Option.map_map]
  rfl

namespace Variable

variable {groupsOf? : Bytes → Option RuleGroups} {v : Variable} {rule : RuleGroups}

theorem groups_eq_ok_iff :
    v.groups groupsOf? = .ok rule ↔ v.rule ≠ [] ∧ groupsOf? v.rule = some rule := by
  unfold groups
  split
  · next h => simp [h]
  · next h => cases groupsOf? v.rule <;> simp [h]

/-- The names of the groups within the rule, where `groupsOf?` answers for rules. -/
def namesOf (groupsOf? : Bytes → Option RuleGroups) (v : Variable) : List Bytes :=
  (groupsOf? v.rule).elim [] RuleGroups.names

theorem namesOf_eq (h : groupsOf? v.rule = some rule) : v.namesOf groupsOf? = rule.names := by
  rw [namesOf, h, Option.elim_some]

def groupNames (v : Variable) : List (List Char) :=
  (Regex.ofBytes? v.rule).elim [] Regex.groupNames

theorem mem_namesOf_ofRule?_iff {name : Bytes} :
    name ∈ v.namesOf RuleGroups.ofRule? ↔
      ∃ group ∈ v.groupNames, Utf8.encode group = name := by
  rw [namesOf, RuleGroups.ofRule?, groupNames]
  cases Regex.ofBytes? v.rule with
  | none => simp
  | some r => simp [Regex.sortedGroupNames]

theorem encode_mem_namesOf_ofRule?_iff {group : List Char} :
    Utf8.encode group ∈ v.namesOf RuleGroups.ofRule? ↔ group ∈ v.groupNames := by
  rw [mem_namesOf_ofRule?_iff]
  refine ⟨?_, fun h => ⟨group, h, rfl⟩⟩
  rintro ⟨other, hm, he⟩
  rwa [← Utf8.encode_injective he]

end Variable

/-! ## Segments -/

namespace Segment

variable {groupsOf? : Bytes → Option RuleGroups} {names groups : List Bytes}
  {row row' : List Segment} {counts : List Nat}

theorem mem_vars_iff {v : Variable} : v ∈ vars row ↔ var v ∈ row := by
  induction row with
  | nil => exact iff_of_false List.not_mem_nil List.not_mem_nil
  | cons segment row ih => cases segment <;> simp [vars, ih]

theorem validateWith_var_eq_ok {v : Variable} :
    validateWith groupsOf? names groups (var v :: row) = .ok counts ↔
      Variable.isName v.name ∧ v.name ∉ names ∧ ∃ rule groups' counts',
        v.groups groupsOf? = .ok rule ∧ addGroups v.name groups rule.names = .ok groups' ∧
        validateWith groupsOf? (v.name :: names) groups' row = .ok counts' ∧
        counts = rule.count :: counts' := by
  rw [validateWith]
  by_cases hn : Variable.isName v.name
  · by_cases hm : v.name ∈ names
    · simp [hn, hm]
    · simp only [hn, hm, Bool.not_true, Bool.false_eq_true, if_false, bind_eq_ok,
        not_false_eq_true, true_and]
      constructor
      · intro h
        obtain ⟨rule, hr, groups', hg, counts', hc, he⟩ := h
        exact ⟨rule, groups', counts', hr, hg, hc, (Except.ok.inj he).symm⟩
      · intro h
        obtain ⟨rule, groups', counts', hr, hg, hc, rfl⟩ := h
        exact ⟨rule, hr, groups', hg, counts', hc, rfl⟩
  · simp [hn]

theorem validateWith_literal_eq_ok {text : Bytes} :
    validateWith groupsOf? names groups (literal text :: row) = .ok counts ↔
      Utf8.isValid text ∧ validateWith groupsOf? names groups row = .ok counts := by
  rw [validateWith]
  split
  · next h => simp [h]
  · next h => simp [h]

/-! ## Names of groups -/

theorem mem_of_addGroups {name : Bytes} {seen seen' : List Bytes}
    (h : addGroups name seen groups = .ok seen') (g : Bytes) :
    g ∈ seen' ↔ g ∈ groups ∨ g ∈ seen := by
  induction groups generalizing seen with
  | nil =>
    obtain rfl := Except.ok.inj h
    simp
  | cons group groups ih =>
    rw [addGroups] at h
    split at h
    · cases h
    · rw [ih h, List.mem_cons, List.mem_cons]
      tauto

theorem exists_addGroups_of_nodup {name : Bytes} {seen : List Bytes} (h : groups.Nodup) :
    (∃ seen', addGroups name seen groups = .ok seen') ↔ ∀ g ∈ groups, g ∉ seen := by
  induction groups generalizing seen with
  | nil => exact iff_of_true ⟨seen, rfl⟩ (List.forall_mem_nil _)
  | cons group groups ih =>
    obtain ⟨hgroup, h⟩ := List.nodup_cons.1 h
    rw [addGroups, List.forall_mem_cons]
    split
    · next hg => exact iff_of_false (by simp) fun h => h.1 hg
    · next hg =>
      rw [ih h, and_iff_right hg]
      refine forall₂_congr fun g hm => ?_
      rw [List.mem_cons, not_or, and_iff_right]
      rintro rfl
      exact hgroup hm

section Groups

variable {v : Variable} {rule : RuleGroups} (hr : groupsOf? v.rule = some rule)

include hr

/-- The names of the groups of a rule are accepted if and only if they are new. -/
theorem exists_addGroups_iff : (∃ groups', addGroups v.name groups rule.names = .ok groups') ↔
    ∀ name ∈ v.namesOf groupsOf?, name ∉ groups := by
  rw [exists_addGroups_of_nodup rule.nodup, Variable.namesOf_eq hr]

theorem mem_addGroups_iff {groups' : List Bytes}
    (hg : addGroups v.name groups rule.names = .ok groups') (name : Bytes) :
    name ∈ groups' ↔ name ∈ v.namesOf groupsOf? ∨ name ∈ groups := by
  rw [mem_of_addGroups hg, Variable.namesOf_eq hr]

end Groups

/-! ## Rows -/

/-- What is asked of a row of segments behind the given names of variables and of groups. -/
structure ValidBehind (groupsOf? : Bytes → Option RuleGroups) (names groups : List Bytes)
    (row : List Segment) : Prop where
  encoded : ∀ text, literal text ∈ row → Utf8.isValid text
  named : ∀ v ∈ vars row, Variable.isName v.name
  ruled : ∀ v ∈ vars row, v.rule ≠ [] ∧ (groupsOf? v.rule).isSome
  nodup : ((vars row).map (·.name)).Nodup
  apart : (vars row).Pairwise fun v w =>
    ∀ name ∈ v.namesOf groupsOf?, name ∉ w.namesOf groupsOf?
  new : ∀ v ∈ vars row, v.name ∉ names ∧ ∀ name ∈ v.namesOf groupsOf?, name ∉ groups

theorem validBehind_nil : ValidBehind groupsOf? names groups [] where
  encoded := by simp
  named := List.forall_mem_nil _
  ruled := List.forall_mem_nil _
  nodup := List.nodup_nil
  apart := .nil
  new := List.forall_mem_nil _

theorem validBehind_literal_iff {text : Bytes} :
    ValidBehind groupsOf? names groups (literal text :: row) ↔
    Utf8.isValid text ∧ ValidBehind groupsOf? names groups row := by
  constructor
  · intro h
    exact ⟨h.encoded text List.mem_cons_self,
      { h with encoded := fun text' hm => h.encoded text' (List.mem_cons_of_mem _ hm) }⟩
  · rintro ⟨htext, h⟩
    refine { h with encoded := fun text' hm => ?_ }
    rcases List.mem_cons.1 hm with he | hm
    · rwa [Segment.literal.inj he]
    · exact h.encoded text' hm

/-- The names behind a variable are asked to differ from its own ones, too. -/
theorem validBehind_var_iff {v : Variable} {groups' : List Bytes}
    (hg : ∀ name, name ∈ groups' ↔ name ∈ v.namesOf groupsOf? ∨ name ∈ groups) :
    ValidBehind groupsOf? names groups (var v :: row) ↔
      Variable.isName v.name ∧ v.name ∉ names ∧
      (v.rule ≠ [] ∧ (groupsOf? v.rule).isSome) ∧
      (∀ name ∈ v.namesOf groupsOf?, name ∉ groups) ∧
      ValidBehind groupsOf? (v.name :: names) groups' row := by
  constructor
  · intro h
    obtain ⟨hname, hnamed⟩ := List.forall_mem_cons.1 h.named
    obtain ⟨hrule, hruled⟩ := List.forall_mem_cons.1 h.ruled
    obtain ⟨hfirst, hnodup⟩ := List.nodup_cons.1 h.nodup
    obtain ⟨hapart, hpairs⟩ := List.pairwise_cons.1 h.apart
    obtain ⟨⟨hnew, hgroups⟩, hrest⟩ := List.forall_mem_cons.1 h.new
    refine ⟨hname, hnew, hrule, hgroups, ?_, hnamed, hruled, hnodup, hpairs,
      fun w hw => ⟨?_, ?_⟩⟩
    · exact fun text hm => h.encoded text (List.mem_cons_of_mem _ hm)
    · rw [List.mem_cons, not_or]
      exact ⟨fun he => hfirst (List.mem_map.2 ⟨w, hw, he⟩), (hrest w hw).1⟩
    · intro name hm
      rw [hg, not_or]
      exact ⟨fun hv => hapart w hw name hv hm, (hrest w hw).2 name hm⟩
  · rintro ⟨hname, hnew, hrule, hgroups, h⟩
    refine ⟨fun text hm => h.encoded text ?_, List.forall_mem_cons.2 ⟨hname, h.named⟩,
      List.forall_mem_cons.2 ⟨hrule, h.ruled⟩, List.nodup_cons.2 ⟨?_, h.nodup⟩,
      List.pairwise_cons.2 ⟨?_, h.apart⟩, List.forall_mem_cons.2 ⟨⟨hnew, hgroups⟩, ?_⟩⟩
    · exact (List.mem_cons.1 hm).resolve_left (by simp)
    · intro hm
      obtain ⟨w, hw, he⟩ := List.mem_map.1 hm
      exact (h.new w hw).1 (List.mem_cons.2 (.inl he))
    · intro w hw name hv hm
      exact (h.new w hw).2 name hm ((hg name).2 (.inl hv))
    · intro w hw
      obtain ⟨hne, hfresh⟩ := h.new w hw
      exact ⟨fun hm => hne (List.mem_cons_of_mem _ hm),
        fun name hm hs => hfresh name hm ((hg name).2 (.inr hs))⟩

/-- A row passes the check if and only if it meets what is asked of it. -/
theorem exists_validateWith_iff :
    (∃ counts, validateWith groupsOf? names groups row = .ok counts) ↔
    ValidBehind groupsOf? names groups row := by
  induction row generalizing names groups with
  | nil => exact iff_of_true ⟨[], rfl⟩ validBehind_nil
  | cons segment row ih =>
    cases segment with
    | literal text =>
      simp only [validateWith_literal_eq_ok, exists_and_left, ih, validBehind_literal_iff]
    | var v =>
      constructor
      · rintro ⟨counts, h⟩
        obtain ⟨hname, hnew, rule, groups', counts', hr, hg, hrest, -⟩ :=
          validateWith_var_eq_ok.1 h
        obtain ⟨hrule, hr⟩ := Variable.groups_eq_ok_iff.1 hr
        have hsome : (groupsOf? v.rule).isSome := by rw [hr, Option.isSome_some]
        exact (validBehind_var_iff (mem_addGroups_iff hr hg)).2
          ⟨hname, hnew, ⟨hrule, hsome⟩, (exists_addGroups_iff hr).1 ⟨groups', hg⟩,
            ih.1 ⟨counts', hrest⟩⟩
      · intro h
        have hv : v ∈ vars (var v :: row) := List.mem_cons_self
        obtain ⟨rule, hr⟩ := Option.isSome_iff_exists.1 (h.ruled v hv).2
        obtain ⟨groups', hg⟩ := (exists_addGroups_iff hr).2 (h.new v hv).2
        obtain ⟨hname, hnew, ⟨hrule, -⟩, -, hrest⟩ :=
          (validBehind_var_iff (mem_addGroups_iff hr hg)).1 h
        obtain ⟨counts, hcounts⟩ := ih.2 hrest
        have hgroups : v.groups groupsOf? = .ok rule := Variable.groups_eq_ok_iff.2 ⟨hrule, hr⟩
        exact ⟨_, validateWith_var_eq_ok.2 ⟨hname, hnew, rule, groups', counts, hgroups, hg,
          hcounts, rfl⟩⟩

theorem perm_vars (h : row'.Perm row) : (vars row').Perm (vars row) := by
  induction h with
  | nil => exact .nil
  | cons segment _ ih =>
    cases segment with
    | literal text => exact ih
    | var v => exact ih.cons v
  | swap x y row =>
    cases x with
    | literal text => cases y <;> exact .refl _
    | var v =>
      cases y with
      | literal text => exact .refl _
      | var w => exact .swap v w _
  | trans _ _ ih₁ ih₂ => exact ih₁.trans ih₂

theorem ValidBehind.of_perm (h : ValidBehind groupsOf? names groups row) (hp : row'.Perm row) :
    ValidBehind groupsOf? names groups row' := by
  have hvars := perm_vars hp
  refine ⟨fun text hm => h.encoded text (hp.mem_iff.1 hm),
    fun v hv => h.named v (hvars.mem_iff.1 hv),
    fun v hv => h.ruled v (hvars.mem_iff.1 hv), (hvars.map _).nodup_iff.2 h.nodup, ?_,
    fun v hv => h.new v (hvars.mem_iff.1 hv)⟩
  -- That two rules have no names in common may be said of either of them first.
  exact (hvars.pairwise_iff fun hvw name hw hv => hvw name hv hw).2 h.apart

/-! ## Valid rows -/

section Valid

variable (h : validateWith groupsOf? names groups row = .ok counts)

include h

theorem validBehind_of_validateWith : ValidBehind groupsOf? names groups row :=
  exists_validateWith_iff.1 ⟨counts, h⟩

theorem isValid_of_validateWith {text : Bytes} (hm : literal text ∈ row) : Utf8.isValid text :=
  (validBehind_of_validateWith h).encoded text hm

theorem isName_of_validateWith : ∀ v ∈ vars row, Variable.isName v.name :=
  (validBehind_of_validateWith h).named

theorem nodup_names : ((vars row).map (·.name)).Nodup ∧ ∀ v ∈ vars row, v.name ∉ names :=
  ⟨(validBehind_of_validateWith h).nodup,
    fun v hv => ((validBehind_of_validateWith h).new v hv).1⟩

end Valid

theorem map_count_of_validateWith (h : validateWith groupsOf? names groups row = .ok counts) :
    (vars row).map (fun v => (groupsOf? v.rule).map RuleGroups.count) = counts.map some := by
  induction row generalizing names groups counts with
  | nil =>
    obtain rfl := Except.ok.inj h
    rfl
  | cons segment row ih =>
    cases segment with
    | literal text => exact ih (validateWith_literal_eq_ok.1 h).2
    | var v =>
      obtain ⟨-, -, rule, _, _, hr, -, hrest, rfl⟩ := validateWith_var_eq_ok.1 h
      rw [vars, List.map_cons, List.map_cons, ih hrest, (Variable.groups_eq_ok_iff.1 hr).2,
        Option.map_some]

/-! ## Rows of regular expressions -/

/-- The rule of a variable that passes the check is a regular expression. -/
theorem exists_ofBytes?_of_validateWith {v : Variable}
    (h : validateWith RuleGroups.ofRule? names groups (var v :: row) = .ok counts) :
    ∃ r groups' counts', Variable.isName v.name ∧ Regex.ofBytes? v.rule = some r ∧
      validateWith RuleGroups.ofRule? (v.name :: names) groups' row = .ok counts' ∧
      counts = r.groupCount :: counts' := by
  obtain ⟨hname, -, rule, groups', counts', hrule, -, hrest, rfl⟩ := validateWith_var_eq_ok.1 h
  obtain ⟨r, hr, rfl⟩ := Option.map_eq_some_iff.1 (Variable.groups_eq_ok_iff.1 hrule).2
  exact ⟨r, groups', counts', hname, hr, hrest, rfl⟩

theorem map_groupCount_of_validate (h : validate row = .ok counts) :
    (vars row).map (fun v => (Regex.ofBytes? v.rule).map Regex.groupCount) = counts.map some := by
  rw [← map_count_of_validateWith h]
  exact List.map_congr_left fun v _ => (RuleGroups.map_count_ofRule? v.rule).symm

/-- No two rules of a valid row have groups of the same name. -/
theorem nodup_groupNames (h : validate row = .ok counts)
    (hn : ∀ v ∈ vars row, v.groupNames.Nodup) :
    ((vars row).flatMap Variable.groupNames).Nodup := by
  refine List.nodup_flatMap.2
    ⟨hn, (validBehind_of_validateWith h).apart.imp fun hvw group hv hw => ?_⟩
  exact hvw (Utf8.encode group) (Variable.encode_mem_namesOf_ofRule?_iff.2 hv)
    (Variable.encode_mem_namesOf_ofRule?_iff.2 hw)

/-! ## Faults -/

/-- The fault is one of the segment. If a name is met again, this is the fault of the variable that
comes later. -/
inductive FaultOf (groupsOf? : Bytes → Option RuleGroups) : Segment → PatternFault → Prop
  | encoding {text : Bytes} (h : ¬ Utf8.isValid text) :
      FaultOf groupsOf? (literal text) .literalNotUtf8
  | name {v : Variable} (h : ¬ Variable.isName v.name) :
      FaultOf groupsOf? (var v) (.invalidName v.name)
  | again (v : Variable) : FaultOf groupsOf? (var v) (.duplicateName v.name)
  | empty {v : Variable} (h : v.rule = []) : FaultOf groupsOf? (var v) (.emptyRule v.name)
  | rule {v : Variable} (h : groupsOf? v.rule = none) :
      FaultOf groupsOf? (var v) (.invalidRule v.rule v.name)
  | group {v : Variable} {name : Bytes} (h : name ∈ v.namesOf groupsOf?) :
      FaultOf groupsOf? (var v) (.duplicateGroup name v.name)

variable {fault : PatternFault} {v : Variable}

theorem faultOf_of_groups (h : v.groups groupsOf? = .error fault) :
    FaultOf groupsOf? (var v) fault := by
  unfold Variable.groups at h
  split at h
  · next hr =>
    obtain rfl := Except.error.inj h
    exact .empty hr
  · cases hr : groupsOf? v.rule with
    | none =>
      rw [hr] at h
      obtain rfl := Except.error.inj h
      exact .rule hr
    | some rule =>
      rw [hr] at h
      cases h

theorem eq_duplicateGroup_of_addGroups {name : Bytes}
    (h : addGroups name names groups = .error fault) :
    ∃ group ∈ groups, fault = .duplicateGroup group name := by
  induction groups generalizing names with
  | nil => cases h
  | cons group groups ih =>
    rw [addGroups] at h
    split at h
    · exact ⟨group, List.mem_cons_self, (Except.error.inj h).symm⟩
    · obtain ⟨g, hg, rfl⟩ := ih h
      exact ⟨g, List.mem_cons_of_mem _ hg, rfl⟩

theorem exists_faultOf (h : validateWith groupsOf? names groups row = .error fault) :
    ∃ x ∈ row, FaultOf groupsOf? x fault := by
  induction row generalizing names groups with
  | nil => cases h
  | cons segment row ih =>
    have hrest : ∀ {names groups}, validateWith groupsOf? names groups row = .error fault →
        ∃ x ∈ segment :: row, FaultOf groupsOf? x fault := by
      intro names groups h
      obtain ⟨x, hx, hfault⟩ := ih h
      exact ⟨x, List.mem_cons_of_mem _ hx, hfault⟩
    cases segment with
    | literal text =>
      rw [validateWith] at h
      split at h
      · exact hrest h
      · next ht =>
        obtain rfl := Except.error.inj h
        exact ⟨_, List.mem_cons_self, .encoding ht⟩
    | var v =>
      rw [validateWith] at h
      split at h
      · next hname =>
        obtain rfl := Except.error.inj h
        exact ⟨_, List.mem_cons_self, .name (by simpa using hname)⟩
      split at h
      · obtain rfl := Except.error.inj h
        exact ⟨_, List.mem_cons_self, .again v⟩
      rcases bind_eq_error_iff.1 h with hr | ⟨rule, hr, h⟩
      · exact ⟨_, List.mem_cons_self, faultOf_of_groups hr⟩
      rcases bind_eq_error_iff.1 h with hg | ⟨groups', -, h⟩
      · obtain ⟨name, hmem, rfl⟩ := eq_duplicateGroup_of_addGroups hg
        refine ⟨_, List.mem_cons_self, .group ?_⟩
        rwa [Variable.namesOf_eq (Variable.groups_eq_ok_iff.1 hr).2]
      exact hrest (bind_pure_eq_error h)

end Segment

end RouteTable
