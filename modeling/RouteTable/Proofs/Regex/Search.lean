import Std.Data.HashSet.Lemmas
import RouteTable.Proofs.Regex.Semantics

/-!
# The search for a match

What the search finds is a way to match the text, and it finds one if there is any, although it
follows only one of the threads at the same spot and ends turns of repetitions that read nothing.

* `Thread.Continues`: a thread comes from another one by steps at one place
* `exists_leads_of_run`: the marks that are found are those of a match
* `Frontier.Covers`: nothing is missing among the rows of goals that have been seen, but for what
  becomes of the threads that are still to be dealt with
* `covers_search`: nothing is missing at the end
* `isSome_match?_iff`: a text is matched if the goals lead through it
-/

namespace RouteTable.Regex

/-! ## Moved goals -/

namespace Goal

theorem move_move (g : Goal) : g.move.move = g.move := by
  cases g <;> rfl

theorem map_move_map_move (goals : List Goal) : (goals.map move).map move = goals.map move := by
  simp [move_move]

/-- A goal allows no steps that it does not allow after a character was read. -/
theorem exists_mem_steps_move {g : Goal} {pl : Place} {s : Step} (hs : s ∈ g.steps pl) :
    ∃ s' ∈ g.move.steps pl, s'.mark = s.mark ∧ s'.goals = s.goals := by
  cases g with
  | again turn greedy r =>
    cases turn with
    | first =>
      obtain rfl := List.mem_singleton.1 hs
      refine ⟨{ goals := [] }, ?_, rfl, rfl⟩
      cases greedy <;> simp [move, steps, choose]
    | later => exact absurd hs List.not_mem_nil
    | moved => exact ⟨s, hs, rfl, rfl⟩
  | _ => exact ⟨s, hs, rfl, rfl⟩

/-- A step that begins a turn of a repetition leads to the expression and the end of the turn. -/
theorem goals_eq_of_again_mem {p : Place} {g : Goal} {s : Step} (hs : s ∈ g.steps p)
    {turn : Turn} {greedy : Bool} {r : Regex} (hm : again turn greedy r ∈ s.goals) :
    turn = .moved ∨
      s.goals = [expr r, again turn greedy r] ∧
      (turn = .first ∨ g = again .moved greedy r) := by
  have hchoose : ∀ {greedy' : Bool} {goals : List Goal},
      s ∈ choose greedy' goals → s.goals = goals := by
    intro greedy' goals hs
    rcases goals_of_mem_choose hs with h | h
    · exact h
    · simp [h] at hm
  fun_cases steps p g
  case case6 =>
    rcases List.mem_cons.1 hs with rfl | hs
    · simp at hm
    · obtain rfl := List.mem_singleton.1 hs
      simp at hm
  case case11 =>
    rw [hchoose hs] at hm
    simp at hm
  case case14 h =>
    rw [steps, if_pos h] at hs
    rw [hchoose hs] at hm ⊢
    simp_all
  case case18 =>
    rw [hchoose hs] at hm ⊢
    simp_all
  all_goals simp_all [steps]

end Goal

/-! ## Ways to go on -/

namespace Thread

/-- What the second thread leads to the first one leads to, too, and the marks of the second one are
those that the first one leaves by going over to it. -/
def Continues (p : Point) (t u : Thread) : Prop :=
  ∃ ms, u.marks = ms.reverse ++ t.marks ∧
    ∀ q ms', Leads u.spot p q ms' → Leads t.spot p q (ms ++ ms')

theorem Continues.refl (p : Point) (t : Thread) : t.Continues p t :=
  ⟨[], rfl, fun _ _ h => h⟩

theorem Continues.trans {p : Point} {t u v : Thread} (h : t.Continues p u) (h' : u.Continues p v) :
    t.Continues p v := by
  obtain ⟨ms, hu, h⟩ := h
  obtain ⟨ms', hv, h'⟩ := h'
  refine ⟨ms ++ ms', by simp [hv, hu], fun q ms'' hq => ?_⟩
  rw [List.append_assoc]
  exact h q _ (h' q _ hq)

theorem continues_of_mem_branches {p : Point} {t u : Thread} (hu : u ∈ t.branches p.place) :
    t.Continues p u := by
  obtain ⟨marks, goals⟩ := t
  cases goals with
  | nil => exact absurd hu List.not_mem_nil
  | cons g goals =>
    obtain ⟨s, hs, rfl⟩ := List.mem_map.1 hu
    obtain ⟨s', hs', hmark, hgoals⟩ := Goal.exists_mem_steps_move hs
    refine ⟨s.mark.toList, ?_, fun q ms hq => ?_⟩
    · cases s.mark <;> rfl
    · rw [← hmark]
      refine .step hs' ?_
      rw [hgoals, ← List.map_append]
      exact hq

theorem leads_of_read? {before : Option Char} {pos : Nat} {c : Char} {cs : List Char} {q : Point}
    {t u : Thread} {ms : List Mark} (hu : t.read? ⟨before, some c, pos⟩ = some u)
    (h : Leads u.spot ⟨some c, pos + 1, cs⟩ q ms) :
    Leads t.spot ⟨before, pos, c :: cs⟩ q ms ∧ u.marks = t.marks := by
  obtain ⟨marks, goals⟩ := t
  rw [read?.eq_def] at hu
  split at hu
  · next index set goals' hg =>
    split at hu
    · next hc =>
      obtain rfl := Option.some.inj hu
      have hg : goals = _ := hg
      subst hg
      refine ⟨.read (by simpa using hc) ?_, rfl⟩
      rwa [spot, Goal.map_move_map_move] at h
    · exact nomatch hu
  · exact nomatch hu

end Thread

namespace Frontier

structure From (K : Thread → Prop) (p : Place) (f : Frontier) : Prop where
  reading : ∀ u ∈ f.reading, ∃ t, K t ∧ t.read? p = some u
  finished : ∀ ms, f.finished = some ms → ∃ t, K t ∧ t.goals = [] ∧ t.marks = ms

theorem from_empty (K : Thread → Prop) (p : Place) : ({} : Frontier).From K p :=
  ⟨fun _ hu => absurd hu List.not_mem_nil, nofun⟩

theorem From.add {K : Thread → Prop} {p : Place} {f : Frontier} (hf : f.From K p) {t : Thread}
    (ht : K t) : (f.add p t).From K p where
  reading := by
    intro u hu
    rcases List.mem_append.1 hu with hu | hu
    · exact ⟨t, ht, Option.mem_toList.1 hu⟩
    · exact hf.reading u hu
  finished := by
    intro ms hms
    rw [Frontier.add] at hms
    by_cases hnil : t.goals = []
    · rw [if_pos (List.isEmpty_iff.2 hnil), Option.or_eq_some_iff] at hms
      rcases hms with hms | ⟨-, hms⟩
      · exact hf.finished ms hms
      · exact ⟨t, ht, hnil, Option.some.inj hms⟩
    · rw [if_neg (by rwa [List.isEmpty_iff])] at hms
      exact hf.finished ms hms

theorem From.search {K : Thread → Prop} {p : Place}
    (hK : ∀ t, K t → ∀ u ∈ t.branches p, K u)
    {ts : List Thread} {f : Frontier} (hts : ∀ t ∈ ts, K t) (hf : f.From K p) :
    (Frontier.search p ts f).From K p := by
  fun_induction Frontier.search p ts f with
  | case1 f => exact hf
  | case2 f t ts _ ih => exact ih (List.forall_mem_cons.1 hts).2 hf
  | case3 f t ts _ ih =>
    obtain ⟨ht, hts⟩ := List.forall_mem_cons.1 hts
    exact ih (List.forall_mem_append.2 ⟨hK t ht, hts⟩) (hf.add ht)

theorem from_search_of_continues (p : Point) (ts : List Thread) :
    (search p.place ts {}).From (fun u => ∃ t ∈ ts, t.Continues p u) p.place := by
  refine .search ?_ ?_ (from_empty _ _)
  · intro u ⟨t, ht, hu⟩ v hv
    exact ⟨t, ht, hu.trans (Thread.continues_of_mem_branches hv)⟩
  · exact fun t ht => ⟨t, ht, .refl p t⟩

end Frontier

theorem exists_leads_of_run {ts : List Thread} {before : Option Char} {pos : Nat} {cs : List Char}
    {marks : List Mark} (h : run ts before pos cs = some marks) :
    ∃ t ∈ ts, ∃ q ms, Leads t.spot ⟨before, pos, cs⟩ q ms ∧ q.rest = [] ∧
      marks = ms.reverse ++ t.marks := by
  induction cs generalizing ts before pos with
  | nil =>
    have hf := Frontier.from_search_of_continues ⟨before, pos, []⟩ ts
    obtain ⟨u, ⟨t, ht, ms, hmarks, hlead⟩, hgoals, hu⟩ := hf.finished marks h
    refine ⟨t, ht, ⟨before, pos, []⟩, ms ++ [], hlead _ _ ?_, rfl, ?_⟩
    · rw [Thread.spot, hgoals]
      exact .nil _
    · rw [List.append_nil, ← hu, hmarks]
  | cons c cs ih =>
    have hf := Frontier.from_search_of_continues ⟨before, pos, c :: cs⟩ ts
    obtain ⟨v, hv, q, ms', hlead', hq, hmarks'⟩ := ih h
    obtain ⟨u, ⟨t, ht, ms, hmarks, hlead⟩, hread⟩ := hf.reading v (List.mem_reverse.1 hv)
    obtain ⟨hread, hmarks''⟩ := Thread.leads_of_read? hread hlead'
    refine ⟨t, ht, q, ms ++ ms', hlead _ _ hread, hq, ?_⟩
    rw [hmarks', hmarks'', hmarks, List.reverse_append, List.append_assoc]

/-! ## Rows that have been seen -/

namespace Frontier

/-- Nothing is missing among the rows of goals that have been seen at a place, but for what becomes
of the threads `ts`. -/
structure Covers (p : Place) (ts : List Thread) (f : Frontier) : Prop where
  closed : ∀ g goals, g :: goals ∈ f.seen → ∀ s ∈ g.steps p,
    s.goals.map Goal.move ++ goals ∈ f.seen ∨
      ∃ t ∈ ts, t.spot = s.goals.map Goal.move ++ goals
  reading : ∀ index set goals c, .expr (.chars index set) :: goals ∈ f.seen →
    p.after = some c → set.contains c.toNat → ∃ u ∈ f.reading, u.spot = goals
  finished : [] ∈ f.seen → f.finished.isSome

/-- The row of a thread in which a turn of a repetition has begun at this place has been seen where
it began, unless the turn is the first one and about to begin. -/
structure Begun (f : Frontier) (goals : List Goal) : Prop where
  first : ∀ pre greedy r rest, goals = pre ++ .again .first greedy r :: rest →
    pre = [.expr r] ∨ .expr r :: .again .moved greedy r :: rest.map Goal.move ∈ f.seen
  later : ∀ pre greedy r rest, goals = pre ++ .again .later greedy r :: rest →
    .again .moved greedy r :: rest.map Goal.move ∈ f.seen

theorem mem_seen_add {f : Frontier} {p : Place} {t : Thread} {row : List Goal} :
    row ∈ (f.add p t).seen ↔ row = t.spot ∨ row ∈ f.seen := by
  rw [add, Std.HashSet.mem_insert, beq_iff_eq, eq_comm]

theorem Begun.mono {f f' : Frontier} {goals : List Goal} (h : f.Begun goals)
    (hsub : ∀ row ∈ f.seen, row ∈ f'.seen) : f'.Begun goals where
  first pre greedy r rest he := (h.first pre greedy r rest he).imp_right (hsub _)
  later pre greedy r rest he := hsub _ (h.later pre greedy r rest he)

/-- No turn has begun at the place to which a thread has just come. -/
theorem begun_of_spot_eq {f : Frontier} {t : Thread} (h : t.spot = t.goals) : f.Begun t.goals := by
  have hnot : ∀ turn greedy r, .again turn greedy r ∈ t.goals → turn = .moved := by
    intro turn greedy r hm
    rw [← h] at hm
    obtain ⟨g, -, hg⟩ := List.mem_map.1 hm
    cases g <;> simp_all [Goal.move]
  refine ⟨fun pre greedy r rest he => ?_, fun pre greedy r rest he => ?_⟩
  · cases hnot .first greedy r (by simp [he])
  · cases hnot .later greedy r (by simp [he])

/-- Where a step begins a turn: first turns begin right before the expression, and later ones where
the turn before ends. -/
theorem turn_of_mem_steps {p : Place} {g : Goal} {s : Step} (hs : s ∈ g.steps p)
    {pre rest : List Goal}
    {turn : Turn} {greedy : Bool} {r : Regex} (he : s.goals = pre ++ .again turn greedy r :: rest) :
    turn = .moved ∨ pre = [.expr r] ∧ rest = [] ∧ (turn = .first ∨
      g = .again .moved greedy r) := by
  have hm : .again turn greedy r ∈ s.goals := by simp [he]
  rcases Goal.goals_eq_of_again_mem hs hm with h | ⟨hg, h⟩
  · exact Or.inl h
  · rw [hg] at he
    rcases pre with _ | ⟨g', _ | ⟨g'', pre⟩⟩
    · exact nomatch he
    · obtain ⟨rfl, -, rfl⟩ : .expr r = g' ∧ True ∧ [] = rest := by simpa using he
      exact Or.inr ⟨rfl, rfl, h⟩
    · simp at he

theorem append_eq_append_cons {α : Type} {a b pre rest : List α} {x : α}
    (h : a ++ b = pre ++ x :: rest) :
    (∃ m, pre = a ++ m ∧ b = m ++ x :: rest) ∨
      ∃ m, a = pre ++ x :: m ∧ rest = m ++ b := by
  rcases List.append_eq_append_iff.1 h with ⟨m, h₁, h₂⟩ | ⟨m, h₁, h₂⟩
  · exact Or.inl ⟨m, h₁, h₂⟩
  · cases m with
    | nil => exact Or.inl ⟨[], by simpa using h₁.symm, by simpa using h₂.symm⟩
    | cons y m =>
      obtain ⟨rfl, rfl⟩ := List.cons.inj h₂
      exact Or.inr ⟨m, h₁, rfl⟩

theorem begun_of_mem_branches {f : Frontier} {p : Place} {t u : Thread} (hb : f.Begun t.goals)
    (hu : u ∈ t.branches p) : (f.add p t).Begun u.goals := by
  obtain ⟨marks, goals⟩ := t
  cases goals with
  | nil => exact absurd hu List.not_mem_nil
  | cons g goals =>
    obtain ⟨s, hs, rfl⟩ := List.mem_map.1 hu
    constructor
    case first =>
      intro pre greedy r rest he
      rcases append_eq_append_cons he with ⟨m, rfl, rfl⟩ | ⟨m, hg, rfl⟩
      · refine Or.inr (mem_seen_add.2 ?_)
        rcases hb.first (g :: m) greedy r rest rfl with hm | hseen
        · obtain ⟨rfl, rfl⟩ := List.cons.inj hm
          exact Or.inl rfl
        · exact Or.inr hseen
      · rcases turn_of_mem_steps hs hg with h | ⟨rfl, -⟩
        · exact nomatch h
        · exact Or.inl rfl
    case later =>
      intro pre greedy r rest he
      apply mem_seen_add.2
      rcases append_eq_append_cons he with ⟨m, rfl, rfl⟩ | ⟨m, hg, rfl⟩
      · exact Or.inr (hb.later (g :: m) greedy r rest rfl)
      · rcases turn_of_mem_steps hs hg with h | ⟨-, rfl, h | rfl⟩
        · exact nomatch h
        · exact nomatch h
        · exact Or.inl rfl

/-- What a goal allows after a character was read it allows now, unless a turn has begun at this
place. -/
theorem mem_steps_of_mem_steps_move {p : Place} {g : Goal} {s : Step} (hs : s ∈ g.move.steps p) :
    (∃ s' ∈ g.steps p, s'.goals = s.goals) ∨
      (∃ greedy r, g = .again .first greedy r ∧ s.goals = [.expr r, .again .later greedy r]) ∨
      ∃ greedy r, g = .again .later greedy r := by
  cases g with
  | again turn greedy r =>
    cases turn with
    | first =>
      rcases Goal.goals_of_mem_choose hs with h | h
      · exact Or.inr (Or.inl ⟨greedy, r, rfl, h⟩)
      · exact Or.inl ⟨{ goals := [] }, List.mem_singleton.2 rfl, h.symm⟩
    | later => exact Or.inr (Or.inr ⟨greedy, r, rfl⟩)
    | moved => exact Or.inl ⟨s, hs, rfl⟩
  | _ => exact Or.inl ⟨s, hs, rfl⟩

theorem Covers.add {f : Frontier} {p : Place} {t : Thread} {ts : List Thread}
    (hc : f.Covers p (t :: ts))
    (hb : f.Begun t.goals) (hn : t.spot ∉ f.seen) :
    (f.add p t).Covers p (t.branches p ++ ts) := by
  obtain ⟨marks, goals⟩ := t
  constructor
  case closed =>
    intro g row hrow s hs
    rcases mem_seen_add.1 hrow with he | hrow
    · cases goals with
      | nil => exact nomatch he
      | cons g₀ goals =>
        obtain ⟨rfl, rfl⟩ := List.cons.inj he
        rcases mem_steps_of_mem_steps_move hs with
          ⟨s', hs', hg⟩ | ⟨greedy, r, rfl, hg⟩ | ⟨greedy, r, rfl⟩
        · refine Or.inr ⟨_, List.mem_append_left _ (List.mem_map_of_mem hs'), ?_⟩
          rw [Thread.spot, List.map_append, hg]
        · rcases hb.first [] greedy r goals rfl with h | h
          · exact nomatch h
          · rw [hg]
            exact Or.inl (mem_seen_add.2 (Or.inr h))
        · exact absurd (hb.later [] greedy r goals rfl) hn
    · rcases hc.closed g row hrow s hs with h | ⟨t, ht, h⟩
      · exact Or.inl (mem_seen_add.2 (Or.inr h))
      · rcases List.mem_cons.1 ht with rfl | ht
        · exact Or.inl (mem_seen_add.2 (Or.inl h.symm))
        · exact Or.inr ⟨t, List.mem_append_right _ ht, h⟩
  case reading =>
    intro index set row c hrow hafter hset
    rcases mem_seen_add.1 hrow with he | hrow
    · cases goals with
      | nil => exact nomatch he
      | cons g₀ goals =>
        obtain ⟨hg, rfl⟩ := List.cons.inj he
        obtain rfl : g₀ = .expr (.chars index set) := by
          cases g₀ <;> simp_all [Goal.move]
        refine ⟨⟨marks, goals.map Goal.move⟩, List.mem_append_left _ ?_,
          Goal.map_move_map_move goals⟩
        simp [Thread.read?, hafter, hset]
    · obtain ⟨u, hu, h⟩ := hc.reading index set row c hrow hafter hset
      exact ⟨u, List.mem_append_right _ hu, h⟩
  case finished =>
    intro hrow
    rw [Frontier.add]
    rcases mem_seen_add.1 hrow with he | hrow
    · obtain rfl := List.map_eq_nil_iff.1 he.symm
      simp
    · have := hc.finished hrow
      split <;> simp [this]

theorem covers_search {p : Place} {ts : List Thread} {f : Frontier} (hc : f.Covers p ts)
    (hb : ∀ t ∈ ts, f.Begun t.goals) : (search p ts f).Covers p [] ∧
      (∀ row ∈ f.seen, row ∈ (search p ts f).seen) ∧
      ∀ t ∈ ts, t.spot ∈ (search p ts f).seen := by
  fun_induction search p ts f with
  | case1 f => exact ⟨hc, fun _ h => h, fun t ht => absurd ht List.not_mem_nil⟩
  | case2 f t ts hseen ih =>
    have hc' : f.Covers p ts := by
      refine ⟨fun g row hrow s hs => ?_, hc.reading, hc.finished⟩
      rcases hc.closed g row hrow s hs with h | ⟨u, hu, h⟩
      · exact Or.inl h
      · rcases List.mem_cons.1 hu with rfl | hu
        · exact Or.inl (h ▸ hseen)
        · exact Or.inr ⟨u, hu, h⟩
    obtain ⟨hcov, hsub, hts⟩ := ih hc' (List.forall_mem_cons.1 hb).2
    exact ⟨hcov, hsub, List.forall_mem_cons.2 ⟨hsub _ hseen, hts⟩⟩
  | case3 f t ts hseen ih =>
    obtain ⟨ht, hts⟩ := List.forall_mem_cons.1 hb
    have hadd : ∀ row ∈ f.seen, row ∈ (f.add p t).seen :=
      fun row h => mem_seen_add.2 (Or.inr h)
    obtain ⟨hcov, hsub, hall⟩ := ih (hc.add ht hseen) (List.forall_mem_append.2
      ⟨fun u hu => begun_of_mem_branches ht hu, fun u hu => (hts u hu).mono hadd⟩)
    refine ⟨hcov, fun row h => hsub row (hadd row h), List.forall_mem_cons.2 ⟨?_, ?_⟩⟩
    · exact hsub _ (mem_seen_add.2 (Or.inl rfl))
    · exact (List.forall_mem_append.1 hall).2

/-- Whatever a row of goals leads to from a place, it comes there through a thread that reads the
next character, or the text ends and there is a thread without goals. -/
theorem Covers.exists_of_leads {f : Frontier} {p q : Point} {row : List Goal} {ms : List Mark}
    (h : Leads row p q ms) (hc : f.Covers p.place []) (hrow : row ∈ f.seen) (hq : q.rest = []) :
    p.rest = [] ∧ f.finished.isSome ∨
      ∃ c cs, p.rest = c :: cs ∧
        ∃ u ∈ f.reading, ∃ ms', Leads u.spot ⟨some c, p.pos + 1, cs⟩ q ms' := by
  induction h with
  | nil p => exact Or.inl ⟨hq, hc.finished hrow⟩
  | step hs _ ih =>
    rcases hc.closed _ _ hrow _ hs with h | ⟨t, ht, -⟩
    · exact ih hc h hq
    · exact absurd ht List.not_mem_nil
  | @read index set goals before pos c cs q ms hset rest _ =>
    obtain ⟨u, hu, hspot⟩ := hc.reading index set goals c hrow rfl hset
    exact Or.inr ⟨c, cs, rfl, u, hu, ms, hspot ▸ rest⟩

theorem spot_eq_of_mem_reading {p : Place} {ts : List Thread} {u : Thread}
    (hu : u ∈ (search p ts {}).reading) : u.spot = u.goals := by
  have hf : (search p ts {}).From (fun _ => True) p :=
    .search (fun _ _ _ _ => trivial) (fun _ _ => trivial) (from_empty _ _)
  obtain ⟨t, -, ht⟩ := hf.reading u hu
  rw [Thread.read?.eq_def] at ht
  split at ht
  · split at ht
    · obtain rfl := Option.some.inj ht
      exact Goal.map_move_map_move _
    · exact nomatch ht
  · exact nomatch ht

theorem covers_empty (p : Place) (ts : List Thread) : ({} : Frontier).Covers p ts where
  closed _ _ h := by simp at h
  reading _ _ _ _ h := by simp at h
  finished h := by simp at h

end Frontier

/-! ## Matches -/

theorem isSome_run_of_leads {ts : List Thread} (hts : ∀ t ∈ ts, t.spot = t.goals)
    {before : Option Char}
    {pos : Nat} {cs : List Char} {t : Thread} (ht : t ∈ ts) {q : Point} {ms : List Mark}
    (h : Leads t.spot ⟨before, pos, cs⟩ q ms)
    (hq : q.rest = []) : (run ts before pos cs).isSome := by
  induction cs generalizing ts before pos t ms with
  | nil =>
    obtain ⟨hc, -, hseen⟩ :=
      Frontier.covers_search (Frontier.covers_empty ⟨before, none, pos⟩ ts)
      fun t ht => Frontier.begun_of_spot_eq (hts t ht)
    rcases hc.exists_of_leads h (hseen t ht) hq with ⟨-, hf⟩ | ⟨c, cs, hnil, -⟩
    · exact hf
    · exact nomatch hnil
  | cons c cs ih =>
    obtain ⟨hc, -, hseen⟩ :=
      Frontier.covers_search (Frontier.covers_empty ⟨before, some c, pos⟩ ts)
      fun t ht => Frontier.begun_of_spot_eq (hts t ht)
    rcases hc.exists_of_leads h (hseen t ht) hq with ⟨hnil, -⟩ | ⟨_, _, he, u, hu, ms', h'⟩
    · exact nomatch hnil
    · obtain ⟨rfl, rfl⟩ := List.cons.inj he
      rw [run]
      exact ih (fun u hu => Frontier.spot_eq_of_mem_reading (List.mem_reverse.1 hu))
        (List.mem_reverse.2 hu) h'

def Point.start (text : List Char) : Point :=
  ⟨none, 0, text⟩

theorem exists_leads_of_match? {r : Regex} {text : List Char} {marks : List Mark}
    (h : r.match? text = some marks) :
    ∃ q, q.rest = [] ∧ Leads [.expr r] (.start text) q marks.reverse := by
  obtain ⟨t, ht, q, ms, hlead, hq, hmarks⟩ := exists_leads_of_run h
  obtain rfl := List.mem_singleton.1 ht
  refine ⟨q, hq, ?_⟩
  rw [hmarks, List.append_nil, List.reverse_reverse]
  exact hlead

theorem isSome_match?_iff {r : Regex} {text : List Char} :
    (r.match? text).isSome ↔ ∃ q ms, q.rest = [] ∧ Leads [.expr r] (.start text) q ms := by
  constructor
  · intro h
    obtain ⟨marks, hm⟩ := Option.isSome_iff_exists.1 h
    obtain ⟨q, hq, h⟩ := exists_leads_of_match? hm
    exact ⟨q, _, hq, h⟩
  · intro h'
    obtain ⟨q, ms, hq, h⟩ := h'
    refine isSome_run_of_leads ?_ List.mem_cons_self h hq
    exact fun t ht => by rw [List.mem_singleton.1 ht]; rfl

end RouteTable.Regex
