import RouteTable.Regex.Basic
import Std.Data.HashSet

/-!
# Matching whole texts

A text is read character by character. The ways to go on are kept in the order of preference, each
with the goals that are still to be matched. Two ways with the same goals at the same place have the
same future, so that only the preferred one is followed. There are no more rows of goals than places
in the expression with its repetitions written out, which bounds the work for each character.

* `Regex.Goal.steps`: what is to be matched instead of a goal
* `Regex.Frontier.search`: all ways to the next character
* `Regex.match?`: the preferred way to match a whole text, if there is one
-/

namespace RouteTable.Regex

/-! ## Places, marks and goals -/

structure Place where
  before : Option Char
  after : Option Char
  pos : Nat

inductive Mark where
  | opened (index pos : Nat)
  | closed (index pos : Nat)
  deriving DecidableEq, Repr

/-- What has happened since a turn of an unbounded repetition began, and so what may come after it.
-/
inductive Turn where
  /-- Nothing was read since the first turns began: there are no more turns. -/
  | first
  /-- Nothing was read since a later turn began: such a turn leads nowhere. -/
  | later
  /-- A character was read: another turn may follow, or none. -/
  | moved
  deriving DecidableEq, Repr

inductive Goal where
  | expr (r : Regex)
  /-- A number of turns through `r`: at least `least`, and at most `extra` more. -/
  | turns (least : Nat) (extra : Option Nat) (greedy : Bool) (r : Regex)
  /-- The end of a turn through `r`, of which any number may follow. -/
  | again (turn : Turn) (greedy : Bool) (r : Regex)
  /-- The end of a group. -/
  | close (index : Nat)

namespace Goal

/-- Whether two expressions are the same. It is seen at once if they are one object. -/
def sameRegex (r s : Regex) : Decidable (r = s) :=
  withPtrEqDecEq r s fun _ => inferInstance

def decEq : (a b : Goal) → Decidable (a = b)
  | expr r, expr s =>
    match sameRegex r s with
    | isTrue h => isTrue (by rw [h])
    | isFalse h => isFalse fun e => h (Goal.expr.inj e)
  | turns l e g r, turns l' e' g' s =>
    if h : l = l' ∧ e = e' ∧ g = g' then
      match sameRegex r s with
      | isTrue h' => isTrue (by rw [h.1, h.2.1, h.2.2, h'])
      | isFalse h' => isFalse fun e => h' (Goal.turns.inj e).2.2.2
    else isFalse fun e =>
      h ⟨(Goal.turns.inj e).1, (Goal.turns.inj e).2.1, (Goal.turns.inj e).2.2.1⟩
  | again t g r, again t' g' s =>
    if h : t = t' ∧ g = g' then
      match sameRegex r s with
      | isTrue h' => isTrue (by rw [h.1, h.2, h'])
      | isFalse h' => isFalse fun e => h' (Goal.again.inj e).2.2
    else isFalse fun e => h ⟨(Goal.again.inj e).1, (Goal.again.inj e).2.1⟩
  | close i, close j =>
    if h : i = j then isTrue (by rw [h]) else isFalse fun e => h (Goal.close.inj e)
  | expr _, turns _ _ _ _ | expr _, again _ _ _ | expr _, close _
  | turns _ _ _ _, expr _ | turns _ _ _ _, again _ _ _ | turns _ _ _ _, close _
  | again _ _ _, expr _ | again _ _ _, turns _ _ _ _ | again _ _ _, close _
  | close _, expr _ | close _, turns _ _ _ _ | close _, again _ _ _ => isFalse nofun

instance : DecidableEq Goal := decEq

/-- A number that tells many expressions apart. It is taken from what comes first in them. -/
def fingerprint : Regex → UInt64
  | .empty => 1
  | .chars index _ => mixHash 2 (hash index)
  | .anchor _ => 3
  | .seq r _ => mixHash 4 (fingerprint r)
  | .alt r _ => mixHash 5 (fingerprint r)
  | .times _ _ _ r => mixHash 6 (fingerprint r)
  | .group index _ _ => mixHash 7 (hash index)

instance : Hashable Goal where
  hash
    | expr r => fingerprint r
    | turns least extra _ r => mixHash (mixHash (hash least) (hash extra)) (fingerprint r)
    | again turn _ r =>
      mixHash (match turn with | .first => 8 | .later => 9 | .moved => 10) (fingerprint r)
    | close index => mixHash 11 (hash index)

def move : Goal → Goal
  | again _ greedy r => again .moved greedy r
  | g => g

end Goal

/-! ## Weights -/

/-- A bound on the number of steps that an expression takes at one place. -/
def weight : Regex → Nat
  | empty | chars _ _ | anchor _ => 1
  | seq r₁ r₂ | alt r₁ r₂ => r₁.weight + r₂.weight + 1
  | times least extra _ r =>
    (least + extra.getD 0) * (r.weight + 1) + (if extra.isSome then 0 else r.weight + 2) + 2
  | group _ _ r => r.weight + 2

def Goal.weight : Goal → Nat
  | expr r => r.weight
  | turns least extra _ r =>
    (least + extra.getD 0) * (r.weight + 1) + (if extra.isSome then 0 else r.weight + 2) + 1
  | again .moved _ r => r.weight + 2
  | again _ _ _ => 1
  | close _ => 1

/-! ## Steps -/

/-- What is to be matched instead of a goal, and the mark left by going over to it. -/
structure Step where
  mark : Option Mark := none
  goals : List Goal

namespace Goal

def choose (greedy : Bool) (turn : List Goal) : List Step :=
  if greedy then [{ goals := turn }, { goals := [] }] else [{ goals := [] }, { goals := turn }]

/-- The steps that a goal allows without reading a character, the preferred one first. -/
def steps (p : Place) : Goal → List Step
  | expr .empty => [{ goals := [] }]
  | expr (.chars _ _) => []
  | expr (.anchor a) => if a.holds p.before p.after then [{ goals := [] }] else []
  | expr (.seq r₁ r₂) => [{ goals := [expr r₁, expr r₂] }]
  | expr (.alt r₁ r₂) => [{ goals := [expr r₁] }, { goals := [expr r₂] }]
  | expr (.times least extra greedy r) => [{ goals := [turns least extra greedy r] }]
  | expr (.group index _ r) =>
    [{ mark := some (.opened index p.pos), goals := [expr r, close index] }]
  | turns (least + 1) (some extra) greedy r =>
    [{ goals := [expr r, turns least (some extra) greedy r] }]
  | turns 0 (some 0) _ _ => [{ goals := [] }]
  | turns 0 (some (extra + 1)) greedy r =>
    choose greedy [expr r, turns 0 (some extra) greedy r]
  | turns (least + 2) none greedy r => [{ goals := [expr r, turns (least + 1) none greedy r] }]
  | turns 1 none greedy r => [{ goals := [expr r, again .first greedy r] }]
  | turns 0 none greedy r =>
    if r.nullable then choose greedy [expr r, again .first greedy r]
    else [{ goals := [again .moved greedy r] }]
  | again .first _ _ => [{ goals := [] }]
  | again .later _ _ => []
  | again .moved greedy r => choose greedy [expr r, again .later greedy r]
  | close index => [{ mark := some (.closed index p.pos), goals := [] }]

def totalWeight : List Goal → Nat
  | [] => 0
  | g :: goals => g.weight + totalWeight goals

theorem totalWeight_append (gs hs : List Goal) :
    totalWeight (gs ++ hs) = totalWeight gs + totalWeight hs := by
  induction gs with
  | nil => rw [List.nil_append, totalWeight, Nat.zero_add]
  | cons g gs ih => rw [List.cons_append, totalWeight, totalWeight, ih, Nat.add_assoc]

theorem length_steps_le (p : Place) (g : Goal) : (g.steps p).length ≤ 2 := by
  fun_cases steps p g <;> simp [choose] <;> split <;> simp

theorem goals_of_mem_choose {greedy : Bool} {turn : List Goal} {s : Step}
    (h : s ∈ choose greedy turn) : s.goals = turn ∨ s.goals = [] := by
  cases greedy with
  | false =>
    rcases List.mem_cons.1 h with rfl | h
    · exact Or.inr rfl
    · exact Or.inl (congrArg Step.goals (List.mem_singleton.1 h))
  | true =>
    rcases List.mem_cons.1 h with rfl | h
    · exact Or.inl rfl
    · exact Or.inr (congrArg Step.goals (List.mem_singleton.1 h))

theorem totalWeight_lt_of_mem_choose {greedy : Bool} {turn : List Goal} {s : Step} {n : Nat}
    (h : s ∈ choose greedy turn) (hn : totalWeight turn < n) : totalWeight s.goals < n := by
  rcases goals_of_mem_choose h with e | e
  · rwa [e]
  · rw [e]
    exact Nat.lt_of_le_of_lt (Nat.zero_le _) hn

theorem totalWeight_lt_expr {p : Place} {r : Regex} {s : Step} (h : s ∈ (expr r).steps p) :
    totalWeight s.goals < r.weight := by
  cases r with
  | empty =>
    rw [steps, List.mem_singleton] at h
    subst h
    exact Nat.one_pos
  | chars _ _ => exact absurd h List.not_mem_nil
  | anchor a =>
    rw [steps] at h
    split at h
    · rw [List.mem_singleton] at h
      subst h
      exact Nat.one_pos
    · exact absurd h List.not_mem_nil
  | seq r₁ r₂ =>
    rw [steps, List.mem_singleton] at h
    subst h
    exact Nat.lt_succ_self _
  | alt r₁ r₂ =>
    rw [steps] at h
    rcases List.mem_cons.1 h with rfl | h
    · exact Nat.lt_succ_of_le (Nat.le_add_right _ _)
    · rw [List.mem_singleton] at h
      subst h
      exact Nat.lt_succ_of_le (Nat.le_add_left _ _)
  | times _ _ _ _ =>
    rw [steps, List.mem_singleton] at h
    subst h
    exact Nat.lt_succ_self _
  | group _ _ _ =>
    rw [steps, List.mem_singleton] at h
    subst h
    exact Nat.lt_succ_self _

theorem totalWeight_lt_turns {p : Place} {least : Nat} {extra : Option Nat}
    {greedy : Bool} {r : Regex} {s : Step} (h : s ∈ (turns least extra greedy r).steps p) :
    totalWeight s.goals < (turns least extra greedy r).weight := by
  rcases extra with _ | extra
  · rcases least with _ | _ | least
    · rw [steps] at h
      split at h
      · apply totalWeight_lt_of_mem_choose h
        simp only [totalWeight, weight, Option.getD_none, Option.isSome_none, Bool.false_eq_true,
          if_false]
        omega
      · rw [List.mem_singleton] at h
        subst h
        simp only [totalWeight, weight, Option.getD_none, Option.isSome_none, Bool.false_eq_true,
          if_false]
        omega
    · rw [steps, List.mem_singleton] at h
      subst h
      simp only [totalWeight, weight, Option.getD_none, Option.isSome_none, Bool.false_eq_true,
        if_false]
      omega
    · rw [steps, List.mem_singleton] at h
      subst h
      simp only [totalWeight, weight, Option.getD_none, Option.isSome_none, Bool.false_eq_true,
        if_false, Nat.add_mul]
      omega
  · rcases least with _ | least
    · rcases extra with _ | extra
      · rw [steps, List.mem_singleton] at h
        subst h
        exact Nat.succ_pos _
      · rw [steps] at h
        apply totalWeight_lt_of_mem_choose h
        simp only [totalWeight, weight, Option.getD_some, Option.isSome_some, if_true, Nat.add_mul]
        omega
    · rw [steps, List.mem_singleton] at h
      subst h
      simp only [totalWeight, weight, Option.getD_some, Option.isSome_some, if_true, Nat.add_mul]
      omega

/-- What is to be matched instead of a goal weighs less. -/
theorem totalWeight_lt_of_mem_steps {p : Place} {g : Goal} {s : Step} (h : s ∈ g.steps p) :
    totalWeight s.goals < g.weight := by
  cases g with
  | expr r => exact totalWeight_lt_expr h
  | turns => exact totalWeight_lt_turns h
  | again turn greedy r =>
    cases turn with
    | first =>
      rw [steps, List.mem_singleton] at h
      subst h
      exact Nat.one_pos
    | later => exact absurd h List.not_mem_nil
    | moved =>
      rw [steps] at h
      apply totalWeight_lt_of_mem_choose h
      simp only [totalWeight, weight]
      omega
  | close =>
    rw [steps, List.mem_singleton] at h
    subst h
    exact Nat.one_pos

end Goal

/-! ## Threads -/

/-- A way to match the text read so far: the marks left, last first, and what is to be matched yet.
-/
structure Thread where
  marks : List Mark
  goals : List Goal

namespace Thread

def branches (p : Place) (t : Thread) : List Thread :=
  match t.goals with
  | [] => []
  | g :: goals => (g.steps p).map fun s => ⟨s.mark.toList ++ t.marks, s.goals ++ goals⟩

def read? (p : Place) (t : Thread) : Option Thread :=
  match t.goals with
  | .expr (.chars _ set) :: goals =>
    if p.after.any fun c => set.contains c.toNat then some ⟨t.marks, goals.map Goal.move⟩
    else none
  | _ => none

/-- Where the thread is in the expression, whatever happened since the last character was read. -/
def spot (t : Thread) : List Goal :=
  t.goals.map Goal.move

/-- One, made three times as much `n` times. -/
def threefold : Nat → Nat
  | 0 => 1
  | n + 1 => 3 * threefold n

theorem threefold_pos (n : Nat) : 0 < threefold n := by
  induction n with
  | zero => exact Nat.one_pos
  | succ n ih => exact Nat.mul_pos (by decide) ih

theorem threefold_mono {m n : Nat} (h : m ≤ n) : threefold m ≤ threefold n := by
  induction h with
  | refl => exact Nat.le_refl _
  | step _ ih =>
    rw [threefold]
    omega

/-- A number that gets smaller by each step at a place, also where two threads take the place of
one. -/
def cost : List Thread → Nat
  | [] => 0
  | t :: ts => threefold (Goal.totalWeight t.goals) + cost ts

theorem cost_append (ts us : List Thread) : cost (ts ++ us) = cost ts + cost us := by
  induction ts with
  | nil => rw [List.nil_append, cost, Nat.zero_add]
  | cons t ts ih => rw [List.cons_append, cost, cost, ih, Nat.add_assoc]

theorem cost_branches_lt (p : Place) (t : Thread) :
    cost (t.branches p) < threefold (Goal.totalWeight t.goals) := by
  rw [branches.eq_def]
  split
  · exact threefold_pos _
  · next g goals h =>
    have few := Goal.length_steps_le p g
    have light : ∀ s ∈ g.steps p,
        3 * threefold (Goal.totalWeight (s.goals ++ goals)) ≤
          threefold (Goal.totalWeight t.goals) := by
      intro s hs
      refine threefold_mono (m := Goal.totalWeight (s.goals ++ goals) + 1) ?_
      have := Goal.totalWeight_lt_of_mem_steps hs
      rw [h, Goal.totalWeight_append, Goal.totalWeight]
      omega
    have pos := threefold_pos (Goal.totalWeight t.goals)
    generalize g.steps p = steps at few light
    rcases steps with _ | ⟨s₁, _ | ⟨s₂, _ | _⟩⟩
    · exact pos
    · have := light s₁ List.mem_cons_self
      simp only [cost, List.map_cons, List.map_nil]
      omega
    · have := light s₁ List.mem_cons_self
      have := light s₂ (List.mem_cons_of_mem _ List.mem_cons_self)
      simp only [cost, List.map_cons, List.map_nil]
      omega
    · simp only [List.length_cons] at few
      omega

end Thread

/-! ## Search -/

/-- What has been found out at a place: which rows of goals have been dealt with, the threads that
read the next character, last first, and the marks of the first thread without goals. -/
structure Frontier where
  seen : Std.HashSet (List Goal) := ∅
  reading : List Thread := []
  finished : Option (List Mark) := none

namespace Frontier

def add (f : Frontier) (p : Place) (t : Thread) : Frontier where
  seen := f.seen.insert t.spot
  reading := (t.read? p).toList ++ f.reading
  finished := if t.goals.isEmpty then f.finished.or (some t.marks) else f.finished

def search (p : Place) (ts : List Thread) (f : Frontier) : Frontier :=
  match ts with
  | [] => f
  | t :: ts =>
    if t.spot ∈ f.seen then search p ts f
    else search p (t.branches p ++ ts) (f.add p t)
termination_by Thread.cost ts
decreasing_by
  · have := Thread.threefold_pos (Goal.totalWeight t.goals)
    rw [Thread.cost]
    omega
  · have := Thread.cost_branches_lt p t
    rw [Thread.cost_append, Thread.cost]
    omega

end Frontier

/-! ## Texts -/

/-- The marks of the first of the threads that matches the rest of a text. -/
def run (ts : List Thread) (before : Option Char) (pos : Nat) : List Char → Option (List Mark)
  | [] => (Frontier.search ⟨before, none, pos⟩ ts {}).finished
  | c :: cs =>
    run (Frontier.search ⟨before, some c, pos⟩ ts {}).reading.reverse (some c) (pos + 1) cs

/-- The marks of the preferred way to match the whole text, last first. -/
def match? (r : Regex) (text : List Char) : Option (List Mark) :=
  run [⟨[], [.expr r]⟩] none 0 text

/-! ## Captures -/

def span? (index : Nat) (marks : List Mark) : Option (Nat × Nat) := do
  let stop ← marks.findSome? fun
    | .closed i pos => if i = index then some pos else none
    | .opened _ _ => none
  let start ← marks.findSome? fun
    | .opened i pos => if i = index then some pos else none
    | .closed _ _ => none
  return (start, stop)

/-- What a group captured last, or nothing if it took no part in the match. -/
def capture (text : List Char) (marks : List Mark) (index : Nat) : List Char :=
  match span? index marks with
  | some (start, stop) => (text.drop start).take (stop - start)
  | none => []

end RouteTable.Regex
