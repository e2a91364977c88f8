import RouteTable.Proofs.Regex.Semantics

/-!
# Other numbers for groups

An expression that becomes a part of a larger one gets other numbers for its groups and its
characters. These do not change what it matches.

* `Regex.renumber`: the expression with other numbers
* `steps_renumber`: its goals allow the same steps
* `leads_renumber_iff`: it matches the same texts, and only the groups of the marks differ
-/

namespace RouteTable.Regex

def renumber (n m : Nat) : Regex → Regex
  | empty => empty
  | chars index set => chars (index + m) set
  | anchor a => anchor a
  | seq r₁ r₂ => seq (r₁.renumber n m) (r₂.renumber n m)
  | alt r₁ r₂ => alt (r₁.renumber n m) (r₂.renumber n m)
  | times least extra greedy r => times least extra greedy (r.renumber n m)
  | group index name r => group (index + n) name (r.renumber n m)

/-! ## Expressions -/

section

variable (n m : Nat)

theorem nullable_renumber (r : Regex) : (r.renumber n m).nullable = r.nullable := by
  induction r <;> simp_all [renumber, nullable]

theorem repeatsWithin_renumber (r : Regex) (limit : Nat) :
    (r.renumber n m).repeatsWithin limit = r.repeatsWithin limit := by
  induction r generalizing limit <;> simp_all [renumber, repeatsWithin]

theorem renumber_concat (rs : List Regex) :
    (concat rs).renumber n m = concat (rs.map (renumber n m)) := by
  fun_induction concat rs with
  | case1 => rfl
  | case2 r => rfl
  | case3 r rs hrs ih =>
    obtain ⟨r', rs, rfl⟩ := List.exists_cons_of_ne_nil hrs
    rw [renumber, ih]
    rfl

theorem renumber_choice (rs : List Regex) :
    (choice rs).renumber n m = choice (rs.map (renumber n m)) := by
  fun_induction choice rs with
  | case1 => rfl
  | case2 r => rfl
  | case3 r rs hrs ih =>
    obtain ⟨r', rs, rfl⟩ := List.exists_cons_of_ne_nil hrs
    rw [renumber, ih]
    rfl

theorem only_renumber {anchors : Prop} {groups : Nat → Prop} {r : Regex} :
    (r.renumber n m).Only anchors groups ↔ r.Only anchors fun index => groups (index + n) := by
  induction r <;> simp_all [renumber, Only]

end

/-! ## Goals -/

def Goal.renumber (n m : Nat) : Goal → Goal
  | expr r => expr (r.renumber n m)
  | turns least extra greedy r => turns least extra greedy (r.renumber n m)
  | again turn greedy r => again turn greedy (r.renumber n m)
  | close index => close (index + n)

def Mark.renumber (n : Nat) : Mark → Mark
  | opened index pos => opened (index + n) pos
  | closed index pos => closed (index + n) pos

def Step.renumber (n m : Nat) (s : Step) : Step where
  mark := s.mark.map (Mark.renumber n)
  goals := s.goals.map (Goal.renumber n m)

variable {n m : Nat}

theorem Goal.choose_renumber (greedy : Bool) (turn : List Goal) :
    choose greedy (turn.map (renumber n m)) = (choose greedy turn).map (Step.renumber n m) := by
  cases greedy <;> rfl

theorem Goal.steps_renumber (g : Goal) (pl : Place) :
    (g.renumber n m).steps pl = (g.steps pl).map (Step.renumber n m) := by
  cases g with
  | expr r =>
    cases r with
    | anchor a =>
      simp only [renumber, Regex.renumber, steps]
      split <;> rfl
    | _ => rfl
  | turns least extra greedy r =>
    rcases extra with _ | _ | extra <;> rcases least with _ | _ | least <;> try rfl
    case none.zero =>
      simp only [renumber, steps, nullable_renumber]
      split
      · exact choose_renumber greedy [expr r, again .first greedy r]
      · rfl
    case some.succ.zero => exact choose_renumber greedy [expr r, turns 0 (some extra) greedy r]
  | again turn greedy r =>
    cases turn with
    | moved => exact choose_renumber greedy [expr r, again .later greedy r]
    | _ => rfl
  | close index => rfl

theorem Goal.renumber_move (g : Goal) : (g.renumber n m).move = g.move.renumber n m := by
  cases g <;> rfl

theorem Goal.map_move_map_renumber (goals : List Goal) :
    (goals.map (renumber n m)).map move = (goals.map move).map (renumber n m) := by
  simp [renumber_move]

variable {p q : Point} {goals : List Goal} {marks : List Mark}

theorem Leads.renumber (h : Leads goals p q marks) :
    Leads (goals.map (Goal.renumber n m)) p q (marks.map (Mark.renumber n)) := by
  induction h with
  | nil p => exact .nil p
  | @step g goals s p q marks hs _ ih =>
    have hs' : s.renumber n m ∈ (g.renumber n m).steps p.place := by
      rw [Goal.steps_renumber]
      exact List.mem_map_of_mem hs
    have hmarks : (s.mark.toList ++ marks).map (Mark.renumber n) =
        (s.renumber n m).mark.toList ++ marks.map (Mark.renumber n) := by
      cases hm : s.mark <;> simp [Step.renumber, hm]
    rw [hmarks]
    refine .step hs' ?_
    rwa [Step.renumber, Goal.map_move_map_renumber, ← List.map_append]
  | read hc _ ih => exact .read hc ih

theorem Leads.exists_of_renumber (h : Leads (goals.map (Goal.renumber n m)) p q marks) :
    ∃ ms, Leads goals p q ms ∧ marks = ms.map (Mark.renumber n) := by
  generalize he : goals.map (Goal.renumber n m) = goals' at h
  induction h generalizing goals with
  | nil p =>
    obtain rfl := List.map_eq_nil_iff.1 he
    exact ⟨[], .nil p, rfl⟩
  | @step g' goals' s' p q marks hs' _ ih =>
    obtain ⟨g, goals, rfl, rfl, rfl⟩ := List.map_eq_cons_iff.1 he
    rw [Goal.steps_renumber] at hs'
    obtain ⟨s, hs, rfl⟩ := List.mem_map.1 hs'
    obtain ⟨ms, h, rfl⟩ := @ih (s.goals.map Goal.move ++ goals)
      (by rw [Step.renumber, Goal.map_move_map_renumber, ← List.map_append])
    refine ⟨_, .step hs h, ?_⟩
    cases hm : s.mark <;> simp [Step.renumber, hm]
  | @read index set goals' before pos c cs q marks hc _ ih =>
    obtain ⟨g, goals, rfl, hg, rfl⟩ := List.map_eq_cons_iff.1 he
    cases g with
    | expr r =>
      cases r with
      | chars index set =>
        simp only [Goal.renumber, Regex.renumber, Goal.expr.injEq, Regex.chars.injEq] at hg
        obtain ⟨-, rfl⟩ := hg
        obtain ⟨ms, h, rfl⟩ := ih rfl
        exact ⟨ms, .read hc h, rfl⟩
      | _ => simp [Goal.renumber, Regex.renumber] at hg
    | _ => exact nomatch hg

/-- Goals with other numbers match the same texts, and only the groups of the marks differ. -/
theorem leads_renumber_iff : Leads (goals.map (Goal.renumber n m)) p q marks ↔
    ∃ ms, Leads goals p q ms ∧ marks = ms.map (Mark.renumber n) := by
  constructor
  · exact Leads.exists_of_renumber
  · intro h'
    obtain ⟨ms, h, rfl⟩ := h'
    exact h.renumber

end RouteTable.Regex
