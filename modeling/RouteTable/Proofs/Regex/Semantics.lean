import Mathlib
import RouteTable.Regex.Matcher

/-!
# What a row of goals matches

The steps of goals are read as a relation between points of a text, in which every turn of a
repetition may read nothing. Nothing is said about which way is preferred.

* `Regex.Leads`: the goals lead from one point of a text to another one
* `leads_append_iff`: goals are matched one after the other
* `leads_seq_iff`, `leads_group_iff`, `leads_chars_iff`: what expressions match
* `exists_leads_again_chars_iff`: what any number of turns through a set of characters matches
* `Leads.relocate`: goals without anchors match the same text everywhere
-/

namespace RouteTable.Regex

structure Point where
  before : Option Char
  pos : Nat
  rest : List Char

def Point.place (p : Point) : Place :=
  ⟨p.before, p.rest.head?, p.pos⟩

/-- The goals lead from one point of a text to another one, and leave the given marks on the way,
the first one first. -/
inductive Leads : List Goal → Point → Point → List Mark → Prop
  | nil (p : Point) : Leads [] p p []
  | step {g : Goal} {goals : List Goal} {s : Step} {p q : Point} {marks : List Mark}
      (hs : s ∈ g.steps p.place) (rest : Leads (s.goals.map Goal.move ++ goals) p q marks) :
      Leads (g :: goals) p q (s.mark.toList ++ marks)
  | read {index : Nat} {set : CharSet} {goals : List Goal} {before : Option Char} {pos : Nat}
      {c : Char} {cs : List Char} {q : Point} {marks : List Mark} (hc : set.contains c.toNat)
      (rest : Leads goals ⟨some c, pos + 1, cs⟩ q marks) :
      Leads (.expr (.chars index set) :: goals) ⟨before, pos, c :: cs⟩ q marks

variable {p q : Point} {marks : List Mark} {goals : List Goal}

/-! ## Rows of goals -/

theorem leads_nil_iff : Leads [] p q marks ↔ q = p ∧ marks = [] := by
  constructor
  · intro h
    cases h
    exact ⟨rfl, rfl⟩
  · intro h
    obtain ⟨rfl, rfl⟩ := h
    exact .nil q

theorem Leads.append {gs hs : List Goal} {m : Point} {ms₁ ms₂ : List Mark}
    (h : Leads gs p m ms₁) (g : Leads hs m q ms₂) : Leads (gs ++ hs) p q (ms₁ ++ ms₂) := by
  induction h with
  | nil p => exact g
  | @step g' goals s p q marks hs _ ih =>
    rw [List.append_assoc]
    refine .step hs ?_
    show Leads (s.goals.map Goal.move ++ (goals ++ _)) _ _ _
    rw [← List.append_assoc]
    exact ih g
  | read hc _ ih => exact .read hc (ih g)

theorem Leads.exists_of_append {gs hs : List Goal} (h : Leads (gs ++ hs) p q marks) :
    ∃ m ms₁ ms₂, Leads gs p m ms₁ ∧ Leads hs m q ms₂ ∧ marks = ms₁ ++ ms₂ := by
  generalize he : gs ++ hs = goals at h
  induction h generalizing gs with
  | nil p =>
    obtain ⟨rfl, rfl⟩ := List.append_eq_nil_iff.1 he
    exact ⟨p, [], [], .nil p, .nil p, rfl⟩
  | @step g goals s p q marks hs rest ih =>
    cases gs with
    | nil =>
      subst he
      exact ⟨p, [], _, .nil p, .step hs rest, rfl⟩
    | cons g' gs =>
      obtain ⟨rfl, rfl⟩ := List.cons.inj he
      obtain ⟨m, ms₁, ms₂, h₁, h₂, rfl⟩ := ih (List.append_assoc _ _ _)
      exact ⟨m, _, ms₂, .step hs h₁, h₂, (List.append_assoc _ _ _).symm⟩
  | read hc rest ih =>
    cases gs with
    | nil =>
      subst he
      exact ⟨_, [], _, .nil _, .read hc rest, rfl⟩
    | cons g' gs =>
      obtain ⟨rfl, rfl⟩ := List.cons.inj he
      obtain ⟨m, ms₁, ms₂, h₁, h₂, rfl⟩ := ih rfl
      exact ⟨m, ms₁, ms₂, .read hc h₁, h₂, rfl⟩

theorem leads_append_iff {gs hs : List Goal} : Leads (gs ++ hs) p q marks ↔
    ∃ m ms₁ ms₂, Leads gs p m ms₁ ∧ Leads hs m q ms₂ ∧ marks = ms₁ ++ ms₂ := by
  constructor
  · exact Leads.exists_of_append
  · intro h
    obtain ⟨m, ms₁, ms₂, h₁, h₂, rfl⟩ := h
    exact h₁.append h₂

theorem leads_cons_iff {g : Goal} : Leads (g :: goals) p q marks ↔
    ∃ m ms₁ ms₂, Leads [g] p m ms₁ ∧ Leads goals m q ms₂ ∧ marks = ms₁ ++ ms₂ :=
  @leads_append_iff p q marks [g] goals

/-! ## Expressions -/

/-- A goal that allows one step only, whatever the place is, matches what it leads to. -/
theorem leads_of_steps_eq_singleton {g : Goal} {s : Step} (hg : g.steps p.place = [s]) :
    Leads (g :: goals) p q marks ↔
      ∃ ms, Leads (s.goals.map Goal.move ++ goals) p q ms ∧ marks = s.mark.toList ++ ms := by
  constructor
  · intro h
    cases h with
    | step hs rest =>
      rw [hg, List.mem_singleton] at hs
      subst hs
      exact ⟨_, rest, rfl⟩
    | read => exact nomatch hg
  · intro h'
    obtain ⟨ms, h, rfl⟩ := h'
    exact .step (by rw [hg]; exact List.mem_cons_self) h

theorem leads_empty_iff : Leads [.expr .empty] p q marks ↔ q = p ∧ marks = [] := by
  rw [leads_of_steps_eq_singleton rfl]
  simp [leads_nil_iff]

theorem leads_chars_iff {index : Nat} {set : CharSet} :
    Leads [.expr (.chars index set)] p q marks ↔
    ∃ c, p.rest = c :: q.rest ∧ set.contains c.toNat ∧ q = ⟨some c, p.pos + 1, q.rest⟩ ∧
      marks = [] := by
  constructor
  · intro h
    cases h with
    | step hs => exact absurd hs List.not_mem_nil
    | read hc rest =>
      obtain ⟨rfl, rfl⟩ := leads_nil_iff.1 rest
      exact ⟨_, rfl, hc, rfl, rfl⟩
  · obtain ⟨before, pos, cs⟩ := p
    intro h
    obtain ⟨c, rfl, hc, hq, rfl⟩ := h
    rw [hq]
    exact .read hc (.nil _)

theorem leads_seq_iff {r₁ r₂ : Regex} :
    Leads [.expr (.seq r₁ r₂)] p q marks ↔ Leads [.expr r₁, .expr r₂] p q marks := by
  rw [leads_of_steps_eq_singleton rfl]
  simp [Goal.move]

theorem leads_alt_iff {r₁ r₂ : Regex} :
    Leads [.expr (.alt r₁ r₂)] p q marks ↔
      Leads [.expr r₁] p q marks ∨ Leads [.expr r₂] p q marks := by
  constructor
  · intro h
    cases h with
    | step hs rest =>
      rcases List.mem_cons.1 hs with rfl | hs
      · exact .inl rest
      · obtain rfl := List.mem_singleton.1 hs
        exact .inr rest
  · intro h'
    rcases h' with h | h
    · exact @Leads.step _ _ { goals := [.expr r₁] } _ _ _ List.mem_cons_self h
    · exact @Leads.step _ _ { goals := [.expr r₂] } _ _ _
        (List.mem_cons_of_mem _ List.mem_cons_self) h

theorem leads_close_iff {index : Nat} :
    Leads [.close index] p q marks ↔ q = p ∧ marks = [.closed index p.pos] := by
  rw [leads_of_steps_eq_singleton rfl]
  simp only [List.map_nil, List.nil_append, leads_nil_iff]
  constructor
  · intro h
    obtain ⟨_, ⟨rfl, rfl⟩, rfl⟩ := h
    exact ⟨rfl, rfl⟩
  · intro h
    obtain ⟨rfl, rfl⟩ := h
    exact ⟨[], ⟨rfl, rfl⟩, rfl⟩

theorem leads_group_iff {index : Nat} {name : Option (List Char)} {r : Regex} :
    Leads [.expr (.group index name r)] p q marks ↔ ∃ ms, Leads [.expr r] p q ms ∧
      marks = .opened index p.pos :: ms ++ [.closed index q.pos] := by
  rw [leads_of_steps_eq_singleton rfl]
  show (∃ ms, Leads ([.expr r] ++ [.close index]) p q ms ∧ _) ↔ _
  simp only [leads_append_iff, leads_close_iff]
  constructor
  · intro h'
    obtain ⟨_, ⟨m, ms, _, h, ⟨rfl, rfl⟩, rfl⟩, rfl⟩ := h'
    exact ⟨ms, h, rfl⟩
  · intro h'
    obtain ⟨ms, h, rfl⟩ := h'
    exact ⟨_, ⟨q, ms, _, h, ⟨rfl, rfl⟩, rfl⟩, rfl⟩

theorem leads_concat_iff {rs : List Regex} :
    Leads [.expr (concat rs)] p q marks ↔ Leads (rs.map .expr) p q marks := by
  fun_induction concat rs generalizing p marks with
  | case1 => exact leads_empty_iff.trans leads_nil_iff.symm
  | case2 r => rfl
  | case3 r rs hrs ih =>
    rw [leads_seq_iff, List.map_cons, leads_cons_iff, leads_cons_iff]
    simp only [ih]

/-! ## Repetitions -/

/-- After a turn a repetition ends or goes on with another turn. -/
theorem leads_again_iff {greedy : Bool} {r : Regex} : Leads [.again .moved greedy r] p q marks ↔
    q = p ∧ marks = [] ∨ Leads [.expr r, .again .moved greedy r] p q marks := by
  have hsteps : ∀ s, s ∈ (Goal.again .moved greedy r).steps p.place ↔
      s = { goals := [] } ∨ s = { goals := [.expr r, .again .later greedy r] } := by
    intro s
    cases greedy <;> simp [Goal.steps, Goal.choose, or_comm]
  constructor
  · intro h
    cases h with
    | step hs rest =>
      rcases (hsteps _).1 hs with rfl | rfl
      · exact .inl (leads_nil_iff.1 rest)
      · exact .inr rest
  · rintro (⟨rfl, rfl⟩ | h)
    · exact @Leads.step _ _ { goals := [] } _ _ _ ((hsteps _).2 (.inl rfl)) (.nil q)
    · exact @Leads.step _ _ { goals := [.expr r, .again .later greedy r] } _ _ _
        ((hsteps _).2 (.inr rfl)) h

theorem leads_star_iff {greedy : Bool} {r : Regex} (hr : r.nullable = false) :
    Leads [.expr (.times 0 none greedy r)] p q marks ↔
      Leads [.again .moved greedy r] p q marks := by
  have hsteps : (Goal.turns 0 none greedy r).steps p.place =
      [{ goals := [.again .moved greedy r] }] := by
    rw [Goal.steps, if_neg (by simp [hr])]
  have hturns : Leads [.turns 0 none greedy r] p q marks ↔
      Leads [.again .moved greedy r] p q marks := by
    rw [leads_of_steps_eq_singleton hsteps]
    simp [Goal.move]
  rw [leads_of_steps_eq_singleton rfl, ← hturns]
  simp [Goal.move]

/-- Turns through a set read a text to its end if all its characters are in the set. -/
theorem exists_leads_again_chars_iff {greedy : Bool} {index : Nat} {set : CharSet} :
    (∃ q ms, q.rest = [] ∧ Leads [.again .moved greedy (.chars index set)] p q ms) ↔
      ∀ c ∈ p.rest, set.contains c.toNat := by
  obtain ⟨before, pos, cs⟩ := p
  induction cs generalizing before pos with
  | nil =>
    refine iff_of_true ⟨⟨before, pos, []⟩, [], rfl,
      leads_again_iff.2 (.inl ⟨rfl, rfl⟩)⟩ ?_
    exact fun c hc => absurd hc List.not_mem_nil
  | cons c cs ih =>
    show _ ↔ ∀ d ∈ c :: cs, _
    rw [List.forall_mem_cons, ← ih (some c) (pos + 1)]
    constructor
    · rintro ⟨q, ms, hq, h⟩
      rcases leads_again_iff.1 h with ⟨rfl, -⟩ | h
      · exact nomatch hq
      · cases h with
        | step hs => exact absurd hs List.not_mem_nil
        | read hc rest => exact ⟨hc, q, ms, hq, rest⟩
    · rintro ⟨hc, q, ms, hq, h⟩
      exact ⟨q, ms, hq, leads_again_iff.2 (.inr (.read hc h))⟩

/-! ## Texts -/

/-- From one point to the other a part of the text is read. -/
theorem Leads.exists_read (h : Leads goals p q marks) :
    ∃ u, p.rest = u ++ q.rest ∧ q.pos = p.pos + u.length := by
  induction h with
  | nil p => exact ⟨[], rfl, rfl⟩
  | step _ _ ih => exact ih
  | @read _ _ _ _ pos c _ _ _ _ _ ih =>
    obtain ⟨u, hu, hpos⟩ := ih
    refine ⟨c :: u, congrArg (c :: ·) hu, ?_⟩
    show _ = pos + (u.length + 1)
    have hpos : _ = pos + 1 + u.length := hpos
    omega

theorem Leads.drop_eq (h : Leads goals p q marks) {text : List Char}
    (hp : text.drop p.pos = p.rest) : text.drop q.pos = q.rest := by
  obtain ⟨u, hu, hpos⟩ := h.exists_read
  rw [hpos, ← List.drop_drop, hp, hu, List.drop_left]

/-! ## Anchors and groups -/

/-- There are anchors in an expression only if `anchors`, and only groups with the given numbers. -/
def Only (anchors : Prop) (groups : Nat → Prop) : Regex → Prop
  | empty | chars _ _ => True
  | anchor _ => anchors
  | seq r₁ r₂ | alt r₁ r₂ => r₁.Only anchors groups ∧ r₂.Only anchors groups
  | times _ _ _ r => r.Only anchors groups
  | group index _ r => groups index ∧ r.Only anchors groups

def Goal.Only (anchors : Prop) (groups : Nat → Prop) : Goal → Prop
  | expr r => r.Only anchors groups
  | turns _ _ _ r => r.Only anchors groups
  | again _ _ r => r.Only anchors groups
  | close index => groups index

def Mark.index : Mark → Nat
  | opened index _ => index
  | closed index _ => index

section Only

variable {anchors : Prop} {groups : Nat → Prop}

theorem Goal.only_move {g : Goal} : g.move.Only anchors groups ↔ g.Only anchors groups := by
  cases g <;> rfl

theorem Goal.only_of_mem_choose {greedy : Bool} {turn : List Goal} {s : Step}
    (h : ∀ g ∈ turn, g.Only anchors groups) (hs : s ∈ choose greedy turn) :
    (∀ g ∈ s.goals, g.Only anchors groups) ∧ s.mark = none := by
  have hturn : ∀ g ∈ (Step.mk none turn).goals, g.Only anchors groups := h
  cases greedy <;> simp only [choose, if_true, Bool.false_eq_true, if_false, List.mem_cons,
    List.not_mem_nil, or_false] at hs <;> rcases hs with rfl | rfl
  · exact ⟨fun g hg => absurd hg List.not_mem_nil, rfl⟩
  · exact ⟨hturn, rfl⟩
  · exact ⟨hturn, rfl⟩
  · exact ⟨fun g hg => absurd hg List.not_mem_nil, rfl⟩

/-- Steps lead to nothing new, and their marks are those of the groups. -/
theorem Goal.only_of_mem_steps {g : Goal} (hg : g.Only anchors groups) {pl : Place} {s : Step}
    (hs : s ∈ g.steps pl) :
    (∀ g' ∈ s.goals, g'.Only anchors groups) ∧ ∀ m ∈ s.mark, groups m.index := by
  have hchoose : ∀ {greedy : Bool} {turn : List Goal},
      (∀ g' ∈ turn, g'.Only anchors groups) → s ∈ choose greedy turn →
      (∀ g' ∈ s.goals, g'.Only anchors groups) ∧ ∀ m ∈ s.mark, groups m.index := by
    intro greedy turn hturn hs
    obtain ⟨hgoals, hmark⟩ := only_of_mem_choose hturn hs
    exact ⟨hgoals, by simp [hmark]⟩
  cases g with
  | expr r =>
    cases r with
    | anchor a =>
      rw [steps] at hs
      split at hs <;> simp_all
    | alt r₁ r₂ => rcases List.mem_cons.1 hs with rfl | hs <;> simp_all [Only, Regex.Only]
    | _ => simp_all [steps, Only, Regex.Only, Mark.index]
  | turns least extra greedy r =>
    have hr : r.Only anchors groups := hg
    rcases extra with _ | _ | extra <;> rcases least with _ | _ | least
    case none.zero =>
      rw [steps] at hs
      split at hs
      · exact hchoose (by simp [Only, hr]) hs
      · simp_all [Only]
    case some.succ.zero => exact hchoose (by simp [Only, hr]) hs
    all_goals simp_all [steps, Only]
  | again turn greedy r =>
    have hr : r.Only anchors groups := hg
    cases turn with
    | moved => exact hchoose (by simp [Only, hr]) hs
    | _ => simp_all [steps]
  | close index => simp_all [steps, Only, Mark.index]

theorem Goal.only_of_mem_map_move {g : Goal} (hg : g.Only anchors groups)
    (hgoals : ∀ g ∈ goals, g.Only anchors groups) {pl : Place} {s : Step}
    (hs : s ∈ g.steps pl) : ∀ g' ∈ s.goals.map move ++ goals, g'.Only anchors groups := by
  refine List.forall_mem_append.2 ⟨fun g' hg' => ?_, hgoals⟩
  obtain ⟨g'', hg'', rfl⟩ := List.mem_map.1 hg'
  exact only_move.2 ((only_of_mem_steps hg hs).1 g'' hg'')

theorem Leads.only_index (h : Leads goals p q marks)
    (hgoals : ∀ g ∈ goals, g.Only anchors groups) :
    ∀ m ∈ marks, groups m.index := by
  induction h with
  | nil p => exact fun m hm => absurd hm List.not_mem_nil
  | @step g goals s p q marks hs _ ih =>
    obtain ⟨hg, hrest⟩ := List.forall_mem_cons.1 hgoals
    have hmark := (Goal.only_of_mem_steps hg hs).2
    refine List.forall_mem_append.2 ⟨fun m hm => hmark m (Option.mem_toList.1 hm), ih ?_⟩
    exact Goal.only_of_mem_map_move hg hrest hs
  | read _ _ ih => exact ih (List.forall_mem_cons.1 hgoals).2

end Only

/-! ## Other places -/

def anchorFree : Regex → Bool
  | empty | chars _ _ => true
  | anchor _ => false
  | seq r₁ r₂ | alt r₁ r₂ => r₁.anchorFree && r₂.anchorFree
  | times _ _ _ r => r.anchorFree
  | group _ _ r => r.anchorFree

theorem anchorFree_iff {r : Regex} : r.anchorFree ↔ r.Only False fun _ => True := by
  induction r <;> simp_all [anchorFree, Only]

/-- A goal without anchors allows the same steps everywhere, but for the marks that they leave. -/
theorem Goal.goals_steps {g : Goal} {groups : Nat → Prop} (hg : g.Only False groups)
    (pl pl' : Place) : (g.steps pl).map (·.goals) = (g.steps pl').map (·.goals) := by
  cases g with
  | expr r =>
    cases r with
    | anchor a => exact hg.elim
    | _ => rfl
  | turns least extra greedy r =>
    rcases extra with _ | _ | extra <;> rcases least with _ | _ | least <;> rfl
  | again turn greedy r => cases turn <;> rfl
  | close index => rfl

/-- Goals without anchors match the same text at all places. -/
theorem Leads.relocate {groups : Nat → Prop} (h : Leads goals p q marks)
    (hgoals : ∀ g ∈ goals, g.Only False groups) {u : List Char} (hu : p.rest = u ++ q.rest)
    (p' : Point) {s : List Char} (hs : p'.rest = u ++ s) :
    ∃ q' marks', q'.rest = s ∧ Leads goals p' q' marks' := by
  induction h generalizing u p' with
  | nil p =>
    obtain rfl := List.self_eq_append_left.1 hu
    exact ⟨p', [], hs, .nil p'⟩
  | @step g goals st p q marks hst _ ih =>
    obtain ⟨hg, hrest⟩ := List.forall_mem_cons.1 hgoals
    have hmem : st.goals ∈ (g.steps p'.place).map (·.goals) := by
      rw [Goal.goals_steps hg p'.place p.place]
      exact List.mem_map_of_mem hst
    obtain ⟨st', hst', he⟩ := List.mem_map.1 hmem
    obtain ⟨q', marks', hq', h'⟩ := ih (Goal.only_of_mem_map_move hg hrest hst) hu p' hs
    rw [← he] at h'
    exact ⟨q', _, hq', .step hst' h'⟩
  | @read index set goals before pos c cs q marks hc rest ih =>
    obtain ⟨v, hv, -⟩ := rest.exists_read
    have hv : cs = v ++ q.rest := hv
    have hu : c :: cs = u ++ q.rest := hu
    obtain rfl : u = c :: v := by
      rw [hv, ← List.cons_append] at hu
      exact (List.append_cancel_right hu).symm
    obtain ⟨before', pos', rest'⟩ := p'
    have hs : rest' = c :: (v ++ s) := hs
    subst hs
    obtain ⟨q', marks', hq', h'⟩ :=
      ih (List.forall_mem_cons.1 hgoals).2 hv ⟨some c, pos' + 1, v ++ s⟩ rfl
    exact ⟨q', marks', hq', .read hc h'⟩

end RouteTable.Regex
