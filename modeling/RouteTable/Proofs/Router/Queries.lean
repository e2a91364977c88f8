import RouteTable.Proofs.Index.Agreement
import RouteTable.Proofs.Router.Draft
import RouteTable.Proofs.Router.Ranking
import RouteTable.Router.Cursor

/-!
# What a router answers

* `findAll_ofRanking`, `findAll_eq_filter`: the routes that match a path, told without the index
* `find_ofRanking`: the first of them is found, whatever the buffer held before
* `take_start_cursor`: a cursor goes through them
-/

namespace RouteTable

variable {α : Type}

/-! ## Routes of a path -/

namespace Route

def isExact (x : Route α) (path : Bytes) : Bool :=
  x.pattern.isLiteral && x.pattern.literalPrefix == path

/-- Whether the route has variables and the path begins with its leading text. -/
def isCandidate (x : Route α) (path : Bytes) : Bool :=
  !x.pattern.isLiteral && x.pattern.literalPrefix.isPrefixOf path

theorem isExact_iff {x : Route α} {path : Bytes} :
    x.isExact path ↔ x.pattern.isLiteral ∧ x.pattern.literalPrefix = path := by
  rw [isExact, Bool.and_eq_true, beq_iff_eq]

end Route

/-! ## Cursors -/

namespace Cursor

theorem search_update (c : Cursor α) (pending l : List UInt32) (current : Option (Found α)) :
    ({ c with pending, current } : Cursor α).search l = c.search l := by
  induction l with
  | nil => rfl
  | cons pos l ih =>
    rw [search, search]
    dsimp only
    cases c.router.matchAt? c.path pos with
    | none => exact ih
    | some found => rfl

theorem take_search (c : Cursor α) (hc : c.exact = none) (l : List UInt32) (n : Nat) :
    (c.search l).take n = (l.filterMap (c.router.matchAt? c.path)).take n := by
  induction l generalizing n with
  | nil => cases n <;> rfl
  | cons pos l ih =>
    rw [search]
    cases hm : c.router.matchAt? c.path pos with
    | none => rw [List.filterMap_cons_none hm, ih]
    | some found =>
      rw [List.filterMap_cons_some hm]
      cases n with
      | zero => rfl
      | succ n =>
        rw [take, List.take_succ_cons, ← ih, ← search_update c l l (some found), advance]
        dsimp only
        rw [hc]

theorem search_started (c : Cursor α) (b : Bool) (l : List UInt32) :
    ({ c with started := b } : Cursor α).search l = { c.search l with started := b } := by
  induction l with
  | nil => rfl
  | cons pos l ih =>
    rw [search, search]
    dsimp only
    cases c.router.matchAt? c.path pos with
    | none => exact ih
    | some found => rfl

theorem advance_started (c : Cursor α) (b : Bool) :
    ({ c with started := b } : Cursor α).advance = { c.advance with started := b } := by
  obtain ⟨router, path, exact, pending, current, started⟩ := c
  cases exact with
  | none => exact search_started ⟨router, path, none, pending, current, started⟩ b pending
  | some pos => rfl

theorem take_started (c : Cursor α) (b : Bool) (n : Nat) :
    ({ c with started := b } : Cursor α).take n = c.take n := by
  induction n generalizing c with
  | zero => rfl
  | succ n ih =>
    rw [take, take, advance_started, ih]

/-- A cursor that is started goes through the literal route, if there is one, and the candidates
that match. -/
theorem take_start (c : Cursor α) (hs : c.started = false)
    (hexact : ∀ pos, c.exact = some pos → ∃ found, c.router.exactAt? pos = some found)
    (n : Nat) : c.start.take n = ((c.exact.bind c.router.exactAt?).toList ++
      c.pending.filterMap (c.router.matchAt? c.path)).take n := by
  rw [start, if_neg (by rw [hs]; decide), take_started]
  obtain ⟨router, path, exact, pending, current, started⟩ := c
  cases exact with
  | none => exact take_search ⟨router, path, none, pending, current, started⟩ rfl pending n
  | some pos =>
    obtain ⟨found, hf⟩ := hexact pos rfl
    have hf : router.exactAt? pos = some found := hf
    rw [advance, Option.bind_some]
    dsimp only
    rw [hf]
    cases n with
    | zero => rfl
    | succ n =>
      exact congrArg (found :: ·)
        (take_search ⟨router, path, none, pending, some found, started⟩ rfl pending n)

theorem head?_take_one (c : Cursor α) : (c.take 1).head? = c.current := by
  rw [take]
  cases c.current <;> rfl

end Cursor

/-! ## Rankings -/

namespace Router

/-- The routes of a router, in the order of their ranking: few enough to count them in 32 bits, and
no two literal ones with the same text. -/
structure Ranking (l : List (Route α)) : Prop where
  accepted : ∀ x ∈ l, x.pattern.Accepted
  distinct_literals : l.Pairwise fun x y =>
    x.pattern.isLiteral → y.pattern.isLiteral →
      x.pattern.literalPrefix ≠ y.pattern.literalPrefix
  length_lt : l.length < 2 ^ 31

theorem Ranking.filter {l : List (Route α)} (h : Ranking l) (keep : Route α → Bool) :
    Ranking (l.filter keep) where
  accepted x hx := h.accepted x (List.mem_filter.1 hx).1
  distinct_literals := h.distinct_literals.filter keep
  length_lt := (List.length_filter_le keep l).trans_lt h.length_lt

theorem Ranking.length_patterns_lt {l : List (Route α)} (h : Ranking l) :
    (l.map (·.pattern)).length < 2 ^ 31 := by
  rw [List.length_map]
  exact h.length_lt

theorem filterMap_range_getElem? {β : Type} (l : List β) {b : Nat → Bool} {p : β → Bool}
    (h : ∀ i x, l[i]? = some x → b i = p x) :
    ((List.range l.length).filter b).filterMap (fun i => l[i]?) = l.filter p := by
  induction l generalizing b with
  | nil => rfl
  | cons a l ih =>
    have ih := ih (b := fun i => b (i + 1)) fun i x hx => h (i + 1) x hx
    have ha := h 0 a rfl
    rw [List.length_cons, List.range_succ_eq_map, List.filter_cons, List.filter_map,
      List.filter_cons, ha]
    have hrest : ((List.range l.length).filter (b ∘ Nat.succ)).filterMap
        ((fun i => (a :: l)[i]?) ∘ Nat.succ) = l.filter p := ih
    split
    · rw [List.filterMap_cons, List.getElem?_cons_zero, List.filterMap_map, hrest]
    · rw [List.filterMap_map, hrest]

section OfRanking

variable {l : List (Route α)} (h : Ranking l) (config : IndexConfig) (path : Bytes)

include h

theorem find?_isExact_iff {x : Route α} :
    l.find? (·.isExact path) = some x ↔
      x ∈ l ∧ x.pattern.isLiteral ∧ x.pattern.literalPrefix = path := by
  have : Std.Symm fun x y : Route α => x.pattern.isLiteral → y.pattern.isLiteral →
      x.pattern.literalPrefix ≠ y.pattern.literalPrefix :=
    ⟨fun a b hab hb ha => (hab ha hb).symm⟩
  constructor
  · intro hf
    have hx := List.find?_some (p := fun y : Route α => y.isExact path) hf
    exact ⟨List.mem_of_find?_eq_some hf, Route.isExact_iff.1 hx⟩
  · intro h'
    obtain ⟨hx, hex⟩ := h'
    cases hf : l.find? (·.isExact path) with
    | none => exact absurd (Route.isExact_iff.2 hex) (List.find?_eq_none.1 hf x hx)
    | some y =>
      have hey := List.find?_some (p := fun y : Route α => y.isExact path) hf
      rw [Route.isExact_iff] at hey
      by_contra hne
      exact h.distinct_literals.forall hx (List.mem_of_find?_eq_some hf)
        (fun he => hne (by rw [he])) hex.1 hey.1 (hex.2.trans hey.2.symm)

theorem toList_find?_isExact : (l.find? (·.isExact path)).toList = l.filter (·.isExact path) := by
  have hdist := h.distinct_literals.filter fun x => x.isExact path
  have hexact : ∀ x ∈ l.filter (·.isExact path),
      x.pattern.isLiteral ∧ x.pattern.literalPrefix = path :=
    fun x hx => Route.isExact_iff.1 (List.mem_filter.1 hx).2
  rw [← List.head?_filter]
  cases hl : l.filter (·.isExact path) with
  | nil => rfl
  | cons x rest =>
    cases rest with
    | nil => rfl
    | cons y rest =>
      rw [hl] at hdist hexact
      obtain ⟨hx, hxpath⟩ := hexact x (by simp)
      obtain ⟨hy, hypath⟩ := hexact y (by simp)
      exact absurd (hxpath.trans hypath.symm) (List.rel_of_pairwise_cons hdist (by simp) hx hy)

/-- The candidates do not depend on what the buffer held before. -/
theorem answers_candidates (s : PositionSet) :
    ((ofRanking config l).candidates path s).Answers (IndexEntry.ofRanking (l.map (·.pattern)))
      path (.empty (.ofNat (l.map (·.pattern)).length)) := by
  rw [candidates, PositionSet.reset_eq_empty]
  refine Index.answers_collect ?_ ?_ config path _
  · intro p hp
    obtain ⟨x, hx, rfl⟩ := List.mem_map.1 hp
    exact h.accepted x hx
  · exact List.pairwise_map.2 h.distinct_literals

theorem candidates_eq (s s' : PositionSet) :
    (ofRanking config l).candidates path s = (ofRanking config l).candidates path s' :=
  (answers_candidates h config path s).unique (answers_candidates h config path s')

omit h in
theorem route?_ofRanking (pos : UInt32) : (ofRanking config l).route? pos = l[pos.toNat]? := by
  rw [route?, ofRanking, List.getElem?_toArray]

/-- The literal route that is found is the one that is the path. -/
theorem exact_candidates (s : PositionSet) :
    (((ofRanking config l).candidates path s).exact = none ∧ l.find? (·.isExact path) = none) ∨
      ∃ pos x, ((ofRanking config l).candidates path s).exact = some pos ∧
        (ofRanking config l).exactAt? pos = some ⟨x, []⟩ ∧
        l.find? (·.isExact path) = some x := by
  have hans := answers_candidates h config path s
  have hiff := hans.exact_ofRanking_iff h.length_patterns_lt
  generalize (ofRanking config l).candidates path s = c at hiff
  cases hc : c.exact with
  | none =>
    refine Or.inl ⟨rfl, Option.eq_none_iff_forall_ne_some.2 fun x hx => ?_⟩
    obtain ⟨hmem, hex⟩ := (find?_isExact_iff h path).1 hx
    obtain ⟨i, hi⟩ := List.getElem?_of_mem hmem
    have hlt : i < l.length := (List.getElem?_eq_some_iff.1 hi).1
    have hlen := h.length_lt
    have hpos : (UInt32.ofNat i).toNat = i := UInt32.toNat_ofNat_of_lt' (by show _ < 2 ^ 32; omega)
    have := (hiff (.ofNat i)).2 ⟨x.pattern, by rw [hpos, List.getElem?_map, hi]; rfl, hex⟩
    rw [hc] at this
    exact nomatch this
  | some pos =>
    obtain ⟨p, hp, hex⟩ := (hiff pos).1 hc
    rw [List.getElem?_map, Option.map_eq_some_iff] at hp
    obtain ⟨x, hx, rfl⟩ := hp
    refine Or.inr ⟨pos, x, rfl, by rw [exactAt?, route?_ofRanking, hx]; rfl, ?_⟩
    exact (find?_isExact_iff h path).2 ⟨List.mem_of_getElem? hx, hex⟩

/-- The candidates that match the path are tried in the order of the ranking. -/
theorem filterMap_matchAt? (s : PositionSet) :
    ((ofRanking config l).candidates path s).positions.toList.filterMap
      ((ofRanking config l).matchAt? path) =
      (l.filter (·.isCandidate path)).filterMap (·.match? path) := by
  obtain ⟨hwf, hcap, hbit⟩ :=
    (answers_candidates h config path s).wellFormed_positions h.length_patterns_lt
  generalize (ofRanking config l).candidates path s = c at hwf hcap hbit
  have hkeep : ∀ i x, l[i]? = some x → c.positions.bit i = x.isCandidate path := by
    intro i x hx
    rw [Bool.eq_iff_iff, hbit, List.getElem?_map, hx, Route.isCandidate, Bool.and_eq_true,
      Bool.not_eq_true', List.isPrefixOf_iff_prefix]
    simp
  have hmatch : (ofRanking config l).matchAt? path =
      (fun i => (l[i]?).bind (·.match? path)) ∘ UInt32.toNat := by
    funext pos
    rw [matchAt?, route?_ofRanking]
    rfl
  rw [hmatch, ← List.filterMap_map, PositionSet.toList_eq hwf, hcap, List.length_map,
    ← filterMap_range_getElem? l hkeep, List.filterMap_filterMap]

/-- All routes that match the path: the literal one that is the path, and then those with variables
in the order of the ranking. -/
theorem findAll_ofRanking : (ofRanking config l).findAll path =
    ((l.find? (·.isExact path)).map (⟨·, []⟩)).toList ++
      (l.filter (·.isCandidate path)).filterMap (·.match? path) := by
  rw [findAll, filterMap_matchAt? h]
  rcases exact_candidates h config path (.empty 0) with ⟨hc, hf⟩ | ⟨pos, x, hc, hx, hf⟩
  · rw [hc, hf]
    rfl
  · rw [hc, hf, Option.bind_some, hx]
    rfl

theorem findAll_eq_filter : (ofRanking config l).findAll path =
    (l.filter (·.isExact path)).map (⟨·, []⟩) ++
      (l.filter (·.isCandidate path)).filterMap (·.match? path) := by
  rw [findAll_ofRanking h, ← toList_find?_isExact h]
  cases l.find? (·.isExact path) <;> rfl

/-- The route that is found is the first one that matches, whatever the buffer held before. -/
theorem find_ofRanking (buffer : PositionSet) :
    ((ofRanking config l).find path buffer).1 = ((ofRanking config l).findAll path).head? := by
  rw [find, findAll, candidates_eq h config path (.empty 0) buffer]
  dsimp only
  rcases exact_candidates h config path buffer with ⟨hc, -⟩ | ⟨pos, x, hc, hx, -⟩
  · rw [hc, List.head?_append, List.head?_filterMap]
    rfl
  · rw [hc, Option.bind_some, hx]
    exact hx

theorem take_start_cursor (n : Nat) : ((ofRanking config l).cursor path).start.take n =
    ((ofRanking config l).findAll path).take n := by
  refine Cursor.take_start _ rfl ?_ n
  intro pos hpos
  rcases exact_candidates h config path (.empty 0) with ⟨hc, -⟩ | ⟨pos', x, hc, hx, -⟩
  · exact nomatch hpos.symm.trans hc
  · obtain rfl := Option.some.inj (hpos.symm.trans hc)
    exact ⟨_, hx⟩

end OfRanking

end Router

end RouteTable
