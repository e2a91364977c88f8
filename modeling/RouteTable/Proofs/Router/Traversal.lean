import RouteTable.Proofs.Index.PositionHistory
import RouteTable.Proofs.Router.Answers

/-!
# Going through the matches of a path

All iterators over the matches of a path share one cursor. However they take turns, the cursor has
gone as many matches ahead as there were increments, and no candidate is tried twice or too early.

* `Cursor.IsAt`: the cursor is at a match with a given number, or behind the last one
* `Sweep.WellFormed.advance`: it goes where a cursor goes that keeps the candidates as a list
* `Router.run?_sweep`: where the iterators are after any row of moves
-/

namespace RouteTable

variable {α : Type}

/-! ## Where a cursor is -/

namespace Cursor

def remaining (c : Cursor α) : List (Found α) :=
  (c.exact.bind c.router.exactAt?).toList ++ c.pending.filterMap (c.router.matchAt? c.path)

/-- The cursor is at the match with number `k` of the list, or behind the last match if there is
none. -/
structure IsAt (c : Cursor α) (l : List (Found α)) (k : Nat) : Prop where
  started : c.started
  current_eq : c.current = l[k]?
  remaining_eq : c.remaining = l.drop (k + 1)
  exact_isSome : ∀ pos ∈ c.exact, (c.router.exactAt? pos).isSome

theorem search_cons_of_none {c : Cursor α} {pos : UInt32} (l : List UInt32)
    (h : c.router.matchAt? c.path pos = none) : c.search (pos :: l) = c.search l := by
  rw [search, h]

theorem search_cons_of_some {c : Cursor α} {pos : UInt32} (l : List UInt32) {found : Found α}
    (h : c.router.matchAt? c.path pos = some found) :
    c.search (pos :: l) = { c with pending := l, current := some found } := by
  rw [search, h]

theorem search_eq (c : Cursor α) (l : List UInt32) :
    (c.search l).router = c.router ∧ (c.search l).path = c.path ∧
      (c.search l).exact = c.exact ∧ (c.search l).started = c.started ∧
      (c.search l).current = (l.filterMap (c.router.matchAt? c.path)).head? ∧
      (c.search l).pending.filterMap (c.router.matchAt? c.path) =
        (l.filterMap (c.router.matchAt? c.path)).tail := by
  induction l with
  | nil => exact ⟨rfl, rfl, rfl, rfl, rfl, rfl⟩
  | cons pos l ih =>
    cases hm : c.router.matchAt? c.path pos with
    | none =>
      rw [search_cons_of_none l hm, List.filterMap_cons_none hm]
      exact ih
    | some found =>
      rw [search_cons_of_some l hm, List.filterMap_cons_some hm]
      exact ⟨rfl, rfl, rfl, rfl, rfl, rfl⟩

theorem advance_eq {c : Cursor α} (h : ∀ pos ∈ c.exact, (c.router.exactAt? pos).isSome) :
    c.advance.started = c.started ∧ c.advance.current = c.remaining.head? ∧
      c.advance.remaining = c.remaining.tail ∧
      ∀ pos ∈ c.advance.exact, (c.advance.router.exactAt? pos).isSome := by
  cases he : c.exact with
  | none =>
    obtain ⟨hrouter, hpath, hexact, hstarted, hcurrent, hpending⟩ := c.search_eq c.pending
    rw [he] at hexact
    have ha : c.advance = c.search c.pending := by rw [advance, he]
    rw [ha, remaining, remaining, hexact, hrouter, hpath, he]
    exact ⟨hstarted, hcurrent, hpending, fun _ hp => absurd hp (Option.not_mem_none _)⟩
  | some pos =>
    obtain ⟨found, hfound⟩ := Option.isSome_iff_exists.1 (h pos he)
    have ha : c.advance = { c with exact := none, current := some found } := by
      rw [advance, he, ← hfound]
    rw [ha, remaining, remaining, he, Option.bind_some, hfound]
    exact ⟨rfl, rfl, rfl, fun _ hp => absurd hp (Option.not_mem_none _)⟩

theorem IsAt.advance {c : Cursor α} {l : List (Found α)} {k : Nat} (h : c.IsAt l k) :
    c.advance.IsAt l (k + 1) := by
  obtain ⟨hstarted, hcurrent, hremaining, hexact⟩ := advance_eq h.exact_isSome
  refine ⟨hstarted.trans h.started, ?_, ?_, hexact⟩
  · rw [hcurrent, h.remaining_eq, List.head?_drop]
  · rw [hremaining, h.remaining_eq, List.tail_drop]

theorem IsAt.start_eq {c : Cursor α} {l : List (Found α)} {k : Nat} (h : c.IsAt l k) :
    c.start = c :=
  if_pos h.started

theorem isAt_start {c : Cursor α} (hs : c.started = false)
    (h : ∀ pos ∈ c.exact, (c.router.exactAt? pos).isSome) : c.start.IsAt c.remaining 0 := by
  obtain ⟨-, hcurrent, hremaining, hexact⟩ := advance_eq h
  rw [start, if_neg (by rw [hs]; exact Bool.false_ne_true)]
  refine ⟨rfl, ?_, ?_, hexact⟩
  · rw [← List.head?_eq_getElem?]
    exact hcurrent
  · rw [List.drop_one]
    exact hremaining

end Cursor

/-! ## A place in the set of candidates -/

namespace Sweep

/-! ### The candidates that remain -/

def rest (s : Sweep α) : List UInt32 :=
  s.place.elim [] s.positions.toListFrom

def toCursor (s : Sweep α) : Cursor α :=
  { router := s.router, path := s.path, exact := s.exact, pending := s.rest, current := s.current,
    started := s.started }

/-- The place of the sweep is a candidate, and those that have been tried are all the others before
it, each of them once. -/
structure WellFormed (s : Sweep α) : Prop where
  positions : s.positions.WellFormed
  place_mem : ∀ pos ∈ s.place, s.positions.contains pos
  tried_append : s.tried ++ s.rest = s.positions.toList

/-- A sweep over a set of candidates whose place was found by a search from `start` on. -/
theorem rest_of_place_eq {s : Sweep α} (h : s.positions.WellFormed) {start : UInt32}
    (hs : s.place = s.positions.next? start) :
    s.rest = s.positions.toListFrom start ∧ ∀ pos ∈ s.place, s.positions.contains pos := by
  rw [rest, hs]
  cases hn : s.positions.next? start with
  | none => exact ⟨(PositionSet.toListFrom_of_next?_eq_none h hn).symm, nofun⟩
  | some pos =>
    have hpos := PositionSet.contains_of_next? h hn
    refine ⟨?_, fun pos' hpos' => Option.some.inj hpos' ▸ hpos⟩
    rw [Option.elim_some, PositionSet.toListFrom_of_next? h hn,
      PositionSet.toListFrom_of_next? h (PositionSet.next?_of_contains h hpos)]

namespace WellFormed

variable {s : Sweep α} (h : s.WellFormed)

include h

theorem rest_eq {pos : UInt32} (hp : s.place = some pos) :
    s.rest = pos :: (s.attempt pos).rest := by
  have hnext := PositionSet.next?_of_contains h.positions (h.place_mem pos hp)
  rw [rest, hp, Option.elim_some, PositionSet.toListFrom_of_next? h.positions hnext,
    (rest_of_place_eq (s := s.attempt pos) h.positions rfl).1]
  rfl

theorem attempt {pos : UInt32} (hp : s.place = some pos) : (s.attempt pos).WellFormed where
  positions := h.positions
  place_mem := (rest_of_place_eq (s := s.attempt pos) h.positions rfl).2
  tried_append := by
    show s.tried ++ [pos] ++ (s.attempt pos).rest = s.positions.toList
    rw [List.append_assoc, List.singleton_append, ← h.rest_eq hp, h.tried_append]

/-- The search in the set of candidates makes headway. -/
theorem all_place_attempt {pos : UInt32} (hp : s.place = some pos) :
    (s.attempt pos).place.all (pos < ·) := by
  cases hn : (s.attempt pos).place with
  | none => rfl
  | some next =>
    have hnext := ((PositionSet.next?_eq_some_iff h.positions).1 hn).1.2
    have hpos := h.place_mem pos hp
    rw [PositionSet.contains_eq h.positions] at hpos
    have hlt := h.positions.lt_capacity _ hpos
    have hle := h.positions.capacity_le
    have hsucc : (pos + 1).toNat = pos.toNat + 1 := by
      rw [UInt32.toNat_add]
      exact Nat.mod_eq_of_lt (by rw [UInt32.toNat_one]; omega)
    rw [Option.all_some, decide_eq_true_iff, UInt32.lt_iff_toNat_lt]
    omega

/-- The search tries the candidates that a cursor tries which keeps them as a list. -/
theorem search (hc : s.current = none) :
    s.search.WellFormed ∧ s.search.positions = s.positions ∧
    s.search.toCursor = s.toCursor.search s.rest := by
  fun_induction Sweep.search s with
  | case1 s hp =>
    have hrest : s.rest = [] := by rw [rest, hp, Option.elim_none]
    refine ⟨h, rfl, ?_⟩
    rw [hrest, Cursor.search, toCursor, hrest, hc]
  | case2 s pos hp hgoes ih =>
    have hnone : s.router.matchAt? s.path pos = none := Option.isNone_iff_eq_none.1 hgoes.1
    obtain ⟨hwf, hpositions, hcursor⟩ := ih (h.attempt hp) hnone
    refine ⟨hwf, hpositions, ?_⟩
    rw [hcursor, h.rest_eq hp, Cursor.search_cons_of_none (c := s.toCursor) _ hnone]
    exact s.toCursor.search_update _ _ _
  | case3 s pos hp hstops =>
    refine ⟨h.attempt hp, rfl, ?_⟩
    have hsome : s.router.matchAt? s.path pos ≠ none := fun hnone =>
      hstops ⟨Option.isNone_iff_eq_none.2 hnone, h.all_place_attempt hp⟩
    obtain ⟨found, hfound⟩ := Option.ne_none_iff_exists'.1 hsome
    rw [h.rest_eq hp, Cursor.search_cons_of_some (c := s.toCursor) _ hfound, ← hfound]
    rfl

theorem advance :
    s.advance.WellFormed ∧ s.advance.positions = s.positions ∧
    s.advance.toCursor = s.toCursor.advance := by
  cases he : s.exact with
  | some pos =>
    have ha : s.advance = { s with exact := none, current := s.router.exactAt? pos } := by
      rw [Sweep.advance, he]
    have hc : s.toCursor.advance =
        { s.toCursor with exact := none, current := s.router.exactAt? pos } := by
      rw [Cursor.advance, show s.toCursor.exact = some pos from he]
      rfl
    rw [ha, hc]
    exact ⟨⟨h.positions, h.place_mem, h.tried_append⟩, rfl, rfl⟩
  | none =>
    have ha : s.advance = { s with current := none }.search := by rw [Sweep.advance, he]
    have hc : s.toCursor.advance = s.toCursor.search s.rest := by
      rw [Cursor.advance, show s.toCursor.exact = none from he]
      rfl
    have hreset : ({ s with current := none } : Sweep α).WellFormed :=
      ⟨h.positions, h.place_mem, h.tried_append⟩
    obtain ⟨hwf, hpositions, hcursor⟩ := hreset.search rfl
    rw [ha, hc]
    exact ⟨hwf, hpositions, hcursor.trans (s.toCursor.search_update s.rest s.rest none)⟩

theorem start : s.start.WellFormed ∧ s.start.positions = s.positions ∧
    s.start.toCursor = s.toCursor.start := by
  rw [Sweep.start, Cursor.start, show s.toCursor.started = s.started from rfl]
  split
  · exact ⟨h, rfl, rfl⟩
  · have hstarted : ({ s with started := true } : Sweep α).WellFormed :=
      ⟨h.positions, h.place_mem, h.tried_append⟩
    obtain ⟨hwf, hpositions, hcursor⟩ := hstarted.advance
    exact ⟨hwf, hpositions, hcursor.trans (s.toCursor.advance_started true)⟩

/-- Each candidate before the place of the sweep has been tried once, and no other has been tried.
-/
theorem count_tried (pos : UInt32) : s.tried.count pos =
    if s.positions.contains pos ∧ ∀ next ∈ s.place, pos < next then 1 else 0 := by
  have hsorted := PositionSet.pairwise_toList h.positions
  have hmem := PositionSet.mem_toList_iff h.positions pos
  rw [← h.tried_append] at hsorted hmem
  obtain ⟨htried, hrest, hlow⟩ := List.pairwise_append.1 hsorted
  have hnodup : s.tried.Nodup := htried.imp UInt32.ne_of_lt
  have hiff : pos ∈ s.tried ↔ s.positions.contains pos ∧ ∀ next ∈ s.place, pos < next := by
    rw [← hmem, List.mem_append]
    constructor
    · intro hp
      refine ⟨Or.inl hp, fun next hn => hlow pos hp next ?_⟩
      rw [h.rest_eq hn]
      exact List.mem_cons_self
    · intro hp
      obtain ⟨hp | hp, hlt⟩ := hp
      · exact hp
      · exfalso
        cases hn : s.place with
        | none =>
          rw [rest, hn, Option.elim_none] at hp
          exact List.not_mem_nil hp
        | some next =>
          have hlt := hlt next hn
          rw [h.rest_eq hn] at hp hrest
          rcases List.mem_cons.1 hp with rfl | hp
          · exact UInt32.lt_irrefl _ hlt
          · exact UInt32.lt_asymm hlt (List.rel_of_pairwise_cons hrest hp)
  rw [hnodup.count]
  exact if_congr hiff rfl rfl

end WellFormed

end Sweep

/-! ## Iterators -/

namespace Tour

/-- The sweep goes through the given candidates and matches and has the place that a cursor has.
With the first iterator it comes to the first match, and from there it has gone `k` matches ahead.
-/
structure IsAt (t : Tour α) (positions : PositionSet) (c : Cursor α) (l : List (Found α))
    (k : Nat) : Prop where
  wellFormed : t.sweep.WellFormed
  positions_eq : t.sweep.positions = positions
  toCursor_eq : t.sweep.toCursor = c
  fresh : t.iterators = 0 → k = 0 ∧ c.started = false ∧ c.remaining = l ∧
    ∀ pos ∈ c.exact, (c.router.exactAt? pos).isSome
  isAt : 0 < t.iterators → c.IsAt l k

namespace IsAt

variable {t : Tour α} {positions : PositionSet} {c : Cursor α} {l : List (Found α)} {k : Nat}

theorem begin (h : t.IsAt positions c l k) :
    ({ sweep := t.sweep.start, iterators := t.iterators + 1 } : Tour α).IsAt
      positions c.start l k := by
  obtain ⟨hwf, hpositions, hcursor⟩ := h.wellFormed.start
  refine ⟨hwf, hpositions.trans h.positions_eq, hcursor.trans (congrArg _ h.toCursor_eq), nofun,
    fun _ => ?_⟩
  rcases Nat.eq_zero_or_pos t.iterators with h0 | hpos
  · obtain ⟨rfl, hs, rfl, hexact⟩ := h.fresh h0
    exact Cursor.isAt_start hs hexact
  · rw [(h.isAt hpos).start_eq]
    exact h.isAt hpos

theorem increment (h : t.IsAt positions c l k) (hpos : 0 < t.iterators) :
    ({ t with sweep := t.sweep.advance } : Tour α).IsAt positions c.advance l (k + 1) := by
  obtain ⟨hwf, hpositions, hcursor⟩ := h.wellFormed.advance
  exact ⟨hwf, hpositions.trans h.positions_eq, hcursor.trans (congrArg _ h.toCursor_eq),
    fun h0 => absurd h0 hpos.ne', fun _ => (h.isAt hpos).advance⟩

/-- Only the number of increments matters, and not which iterators go ahead. -/
theorem exists_run? (h : t.IsAt positions c l k) {moves : List Move}
    (hm : Move.Obtained t.iterators moves) :
    ∃ t', t.run? moves = some t' ∧ t'.iterators = t.iterators + moves.count .begin ∧
      t'.IsAt positions (moves.foldl Cursor.move c) l (k + moves.countP (·.isIncrement)) := by
  induction moves generalizing t c k with
  | nil => exact ⟨t, rfl, rfl, h⟩
  | cons m moves ih =>
    have hincrement : ∀ m i, m.isIncrement → m ≠ .begin → i < t.iterators →
        Move.Obtained t.iterators moves →
        ∃ t', (t.increment? i).bind (·.run? moves) = some t' ∧
          t'.iterators = t.iterators + (m :: moves).count .begin ∧
          t'.IsAt positions (moves.foldl Cursor.move c.advance) l
            (k + (m :: moves).countP (·.isIncrement)) := by
      intro m i hm hne hi hrest
      rw [increment?, if_pos hi, Option.bind_some, List.count_cons_of_ne hne,
        List.countP_cons_of_pos hm, Nat.add_comm _ 1, ← Nat.add_assoc]
      exact ih (h.increment (Nat.zero_lt_of_lt hi)) hrest
    cases m with
    | begin =>
      rw [List.count_cons_self, List.countP_cons_of_neg Bool.false_ne_true, Nat.add_comm _ 1,
        ← Nat.add_assoc]
      exact ih h.begin hm
    | next i => exact hincrement _ i rfl nofun hm.1 hm.2
    | post i => exact hincrement _ i rfl nofun hm.1 hm.2

end IsAt

end Tour

/-! ## Built routers -/

namespace Router

theorem isAt_sweep {ranking : List (Route α)} (h : Ranking ranking) (config : IndexConfig)
    (path : Bytes) :
    let r := ofRanking config ranking
    ({ sweep := r.sweep path } : Tour α).IsAt (r.candidates path (.empty 0)).positions
      (r.cursor path) (r.findAll path) 0 := by
  intro r
  obtain ⟨hwf, -, -⟩ :=
    (answers_candidates h config path (.empty 0)).wellFormed_positions h.length_patterns_lt
  obtain ⟨hrest, hplace⟩ := Sweep.rest_of_place_eq (s := r.sweep path) hwf rfl
  refine ⟨⟨hwf, hplace, hrest⟩, rfl, ?_, fun _ => ⟨rfl, rfl, rfl, fun pos hpos => ?_⟩, nofun⟩
  · rw [Sweep.toCursor, hrest]
    rfl
  · rcases exact_candidates h config path (.empty 0) with ⟨hc, -⟩ | ⟨pos', x, hc, hx, -⟩
    · exact nomatch hpos.symm.trans hc
    · obtain rfl := Option.some.inj (hpos.symm.trans hc)
      exact Option.isSome_iff_exists.2 ⟨_, hx⟩

/-- Whatever moves are made with the iterators over the matches of a path, all iterators are at the
match whose number is the number of increments, counted from the first match, or at the end if there
are not that many. Another iterator changes nothing once there is one. The place of the sweep is a
candidate, as long as there is one left; the candidates before it have been tried once, and the
others have not. The matches are the literal route that is the path, and then the candidates that
match it, in the order of the routes. -/
theorem run?_sweep {r : Router α} (h : r.IsBuilt) (hlen : r.size < 2 ^ 31) (path : Bytes)
    {moves : List Move} (hm : Move.Obtained 0 moves) :
    r.findAll path = ((r.routes.toList.find? (·.isExact path)).map (⟨·, []⟩)).toList ++
      (r.routes.toList.filter (·.isCandidate path)).filterMap (·.match? path) ∧
    ∃ t : Tour α, Tour.run? { sweep := r.sweep path } moves = some t ∧
      t.iterators = moves.count .begin ∧
      (∀ i < t.iterators, t.seen? i = some (r.findAll path)[moves.countP (·.isIncrement)]?) ∧
      (0 < t.iterators → t.sweep.start = t.sweep) ∧
      t.sweep.toCursor = moves.foldl Cursor.move (r.cursor path) ∧
      (∀ pos, t.sweep.positions.contains pos ↔
        ∃ x, r.route? pos = some x ∧ x.isCandidate path) ∧
      (∀ pos ∈ t.sweep.place, t.sweep.positions.contains pos) ∧
      ∀ pos, t.sweep.tried.count pos =
        if t.sweep.positions.contains pos ∧ ∀ next ∈ t.sweep.place, pos < next then 1
        else 0 := by
  obtain ⟨config, ranking, hranking, rfl⟩ := h.exists_ranking hlen
  obtain ⟨t, hrun, hiterators, hat⟩ := (isAt_sweep hranking config path).exists_run? hm
  rw [Nat.zero_add] at hiterators hat
  refine ⟨findAll_ofRanking hranking config path, t, hrun, hiterators, fun i hi => ?_,
    fun hpos => ?_, hat.toCursor_eq, fun pos => ?_, hat.wellFormed.place_mem,
    hat.wellFormed.count_tried⟩
  · rw [Tour.seen?, if_pos hi, ← (hat.isAt (Nat.zero_lt_of_lt hi)).current_eq, ← hat.toCursor_eq]
    rfl
  · have hstarted := (hat.isAt hpos).started
    rw [← hat.toCursor_eq] at hstarted
    exact if_pos hstarted
  · have hcandidates := answers_candidates hranking config path (.empty 0)
    rw [hat.positions_eq, hcandidates.contains_iff hranking.length_patterns_lt, route?_ofRanking,
      List.getElem?_map]
    simp only [Option.map_eq_some_iff, Route.isCandidate, Bool.and_eq_true, Bool.not_eq_true',
      List.isPrefixOf_iff_prefix, exists_exists_and_eq_and]

/-- Two iterators take turns over a literal route and three candidates, one of which does not match.
-/
theorem run?_sweep_turns :
    let d := ({} : Draft Nat).addAll
      [(.source (.ofString "/{x}"), 1), (.source (.ofString "/a"), 2),
        (.source (.ofString "/{y:b+}"), 3), (.source (.ofString "/{z:[a-c]}"), 4)]
    let r := ofRanking d.config (d.ranked Route.moreSpecific)
    r.size = 4 ∧ ∃ t,
      Tour.run? { sweep := r.sweep (.ofString "/a") } [.begin, .next 0, .begin, .post 1] =
        some t ∧
      t.iterators = 2 ∧ t.seen? 0 = some (r.findAll (.ofString "/a"))[2]? ∧
      t.seen? 1 = t.seen? 0 := by
  intro d r
  have hsize : r.size = 4 := by
    have hlen : d.routes.length = 4 := by decide +kernel
    exact (d.ranked_perm Route.moreSpecific).length_eq.trans hlen
  have hbuilt : r.IsBuilt := Or.inr ⟨{}, _, Route.moreSpecific, rfl⟩
  have hmoves : Move.Obtained 0 [.begin, .next 0, .begin, .post 1] :=
    ⟨by decide, by decide, trivial⟩
  obtain ⟨-, t, hrun, hiterators, hseen, -⟩ :=
    run?_sweep hbuilt (by rw [hsize]; decide) (.ofString "/a") hmoves
  have h0 := hseen 0 (by rw [hiterators]; decide)
  have h1 := hseen 1 (by rw [hiterators]; decide)
  exact ⟨hsize, t, hrun, hiterators, h0, h1.trans h0.symm⟩

end Router

end RouteTable
