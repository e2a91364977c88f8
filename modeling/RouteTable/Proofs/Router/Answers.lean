import RouteTable.Proofs.Router.Queries

/-!
# Answers of built routers

* `Router.findAll_addAll`: all routes that match a path, for a router that was built from a row of
  additions
* `Router.findRun_eq`: the routes that are found by a row of queries that share one buffer
-/

namespace RouteTable

variable {α : Type}

/-! ## Matches -/

theorem Route.match?_eq_some_iff {x : Route α} {path : Bytes} {f : Found α} :
    x.match? path = some f ↔ f.route = x ∧ x.pattern.match? path = some f.bindings := by
  rw [Route.match?, Option.map_eq_some_iff]
  constructor
  · intro h
    obtain ⟨b, hb, rfl⟩ := h
    exact ⟨rfl, hb⟩
  · intro h
    obtain ⟨rfl, hb⟩ := h
    exact ⟨f.bindings, hb, rfl⟩

theorem map_route_filterMap_sublist (l : List (Route α)) (path : Bytes) :
    ((l.filterMap (·.match? path)).map (·.route)).Sublist l := by
  induction l with
  | nil => exact .slnil
  | cons x l ih =>
    cases hm : x.match? path with
    | none =>
      rw [List.filterMap_cons, hm]
      exact ih.cons x
    | some f =>
      rw [List.filterMap_cons, hm, List.map_cons, (Route.match?_eq_some_iff.1 hm).1]
      exact ih.cons_cons x

namespace Router

/-! ## Rankings of drafts -/

theorem Ranking.of_perm {d : Draft α} (h : d.WellFormed) {l : List (Route α)}
    (hl : l.Perm d.routes) (hlen : d.routes.length < 2 ^ 31) : Ranking l where
  accepted x hx := h.accepted x (hl.subset hx)
  distinct_literals := h.distinct_literals_of_perm hl
  length_lt := by rwa [hl.length_eq]

/-- The router of a row of additions under a comparison that ranks the routes answers for a path
with the literal route that is the path, and after it with all routes with variables whose leading
text the path begins with and that match it, each of them once, those to be preferred first and
equal ones in the order in which they were added. A cursor goes through the same routes. -/
theorem findAll_addAll (config : IndexConfig) (calls : List (PatternInput × α))
    (prefers : Route α → Route α → Bool)
    (h : StrictWeakOrder (({ config } : Draft α).addAll calls).routes prefers)
    (hlen : (({ config } : Draft α).addAll calls).routes.length < 2 ^ 31) (path : Bytes) :
    let d := ({ config } : Draft α).addAll calls
    StrictWeakOrder d.routes Route.moreSpecific ∧
    ∃ (r : Router α) (first : Option (Route α)) (rest : List (Found α)),
      ofDraft d (some prefers) = .ok r ∧
      r.findAll path = (first.map (⟨·, []⟩)).toList ++ rest ∧
      (∀ n, (r.cursor path).start.take n = (r.findAll path).take n) ∧
      (∀ x, first = some x ↔ x ∈ d.routes ∧ x.pattern.isLiteral ∧
        x.pattern.literalPrefix = path) ∧
      (∀ f, f ∈ rest ↔ f.route ∈ d.routes ∧ f.route.pattern.isLiteral = false ∧
        f.route.pattern.literalPrefix <+: path ∧
        f.route.pattern.match? path = some f.bindings) ∧
      (rest.map (·.route)).Nodup ∧
      rest.Pairwise fun f g => prefers g.route f.route = false ∧
        (prefers f.route g.route = false → [f.route, g.route].Sublist d.routes) := by
  intro d
  have hwf : d.WellFormed := Draft.wellFormed_addAll (Draft.wellFormed_empty config) calls
  have hperm := d.ranked_perm prefers
  have hrank : Ranking (d.ranked prefers) := .of_perm hwf hperm hlen
  have hsub : ((((d.ranked prefers).filter (·.isCandidate path)).filterMap (·.match? path)).map
      (·.route)).Sublist (d.ranked prefers) :=
    (map_route_filterMap_sublist _ path).trans List.filter_sublist
  refine ⟨strictWeakOrder_moreSpecific _, ofRanking d.config (d.ranked prefers),
    (d.ranked prefers).find? (·.isExact path),
    ((d.ranked prefers).filter (·.isCandidate path)).filterMap (·.match? path), rfl,
    findAll_ofRanking hrank _ path, take_start_cursor hrank _ path, fun x => ?_,
      fun f => ?_, ?_, ?_⟩
  · rw [← hperm.mem_iff, find?_isExact_iff hrank]
  · simp only [List.mem_filterMap, List.mem_filter, Route.match?_eq_some_iff, Route.isCandidate,
      Bool.and_eq_true, Bool.not_eq_true', List.isPrefixOf_iff_prefix, hperm.mem_iff]
    constructor
    · intro h
      obtain ⟨x, ⟨hx, hl, hp⟩, rfl, hm⟩ := h
      exact ⟨hx, hl, hp, hm⟩
    · intro h
      obtain ⟨hx, hl, hp, hm⟩ := h
      exact ⟨f.route, ⟨hx, hl, hp⟩, rfl, hm⟩
  · exact hsub.nodup (hperm.nodup_iff.2 hwf.nodup_routes)
  · exact List.pairwise_map.1 ((Draft.pairwise_ranked_of_nodup h hwf.nodup_routes).sublist hsub)

/-- Six additions, of which one is invalid and one has the shape of an earlier one. The literal
route comes first, although others are preferred to it. -/
theorem findAll_addAll_mixed :
    let d := ({} : Draft Nat).addAll
      [(.source (.ofString "/{x}"), 20), (.source (.ofString "/a"), 31),
        (.source (.ofString "/\x7by"), 1), (.source (.ofString "/{z}"), 3),
        (.segments [.literal (.ofString "/"), .var ⟨.ofString "x", .ofString "[a-c]+", false⟩],
          21),
        (.source (.ofString "/{w:a}"), 10)]
    let prefers := fun x y : Route Nat => decide (x.value / 10 < y.value / 10)
    StrictWeakOrder d.routes prefers ∧ d.routes.map (·.value) = [20, 31, 21, 10] ∧
      ∃ r x rest, ofDraft d (some prefers) = .ok r ∧ x.value = 31 ∧
        r.findAll (.ofString "/a") = ⟨x, []⟩ :: rest := by
  intro d prefers
  have hprefers : StrictWeakOrder d.routes prefers := by
    refine ⟨fun a _ => ?_, fun a _ b _ c _ => ?_, fun a _ b _ c _ => ?_⟩ <;>
      simp only [prefers, decide_eq_true_eq, decide_eq_false_iff_not] <;> omega
  have hvalues : d.routes.map (·.value) = [20, 31, 21, 10] := by decide +kernel
  have hlen : d.routes.length < 2 ^ 31 := by
    have := congrArg List.length hvalues
    rw [List.length_map] at this
    rw [this]
    decide
  obtain ⟨-, r, first, rest, hr, hall, -, hfirst, -⟩ :=
    findAll_addAll {} _ prefers hprefers hlen (.ofString "/a")
  have hliteral : (d.routes.find? fun x => x.isExact (.ofString "/a")).map (·.value) =
      some 31 := by
    decide +kernel
  obtain ⟨x, hx, hvalue⟩ := Option.map_eq_some_iff.1 hliteral
  have hexact := List.find?_some hx
  rw [Route.isExact, Bool.and_eq_true, beq_iff_eq] at hexact
  rw [(hfirst x).2 ⟨List.mem_of_find?_eq_some hx, hexact⟩] at hall
  exact ⟨hprefers, hvalues, r, x, rest, hr, hvalue, hall⟩

/-! ## Queries with one buffer -/

def IsBuilt (r : Router α) : Prop :=
  r = .empty ∨
    ∃ config calls prefers, ofDraft (({ config } : Draft α).addAll calls) (some prefers) = .ok r

/-- The answers to a row of queries. Each of them collects its candidates in the buffer that the one
before it has left. -/
def findRun (buffer : PositionSet) : List (Router α × Bytes) → List (Option (Found α))
  | [] => []
  | (r, path) :: queries => (r.find path buffer).1 :: findRun (r.find path buffer).2 queries

theorem IsBuilt.exists_ranking {r : Router α} (h : r.IsBuilt) (hlen : r.size < 2 ^ 31) :
    ∃ config l, Ranking l ∧ r = ofRanking config l := by
  rcases h with rfl | ⟨config, calls, prefers, h⟩
  · exact ⟨{}, [], ⟨nofun, List.Pairwise.nil, Nat.two_pow_pos 31⟩, rfl⟩
  · obtain rfl := Except.ok.inj h
    have hwf := Draft.wellFormed_addAll (Draft.wellFormed_empty config) calls
    have hperm := Draft.ranked_perm (({ config } : Draft α).addAll calls) prefers
    refine ⟨_, _, .of_perm hwf hperm ?_, rfl⟩
    rw [← hperm.length_eq]
    exact hlen

/-- Whatever was asked before, and of which routers, each query finds the first of the routes that
the router answers with on its own. -/
theorem findRun_eq (queries : List (Router α × Bytes))
    (h : ∀ q ∈ queries, q.1.IsBuilt ∧ q.1.size < 2 ^ 31) (buffer : PositionSet) :
    findRun buffer queries = queries.map (fun q => (q.1.findAll q.2).head?) ∧
      ∀ q ∈ queries, (q.1.cursor q.2).start.current = (q.1.findAll q.2).head? := by
  constructor
  · induction queries generalizing buffer with
    | nil => rfl
    | cons q queries ih =>
      obtain ⟨hbuilt, hlen⟩ := h q List.mem_cons_self
      obtain ⟨config, l, hl, hr⟩ := hbuilt.exists_ranking hlen
      rw [findRun, List.map_cons, ih fun q' hq' => h q' (List.mem_cons_of_mem _ hq'), hr,
        find_ofRanking hl]
  · intro q hq
    obtain ⟨hbuilt, hlen⟩ := h q hq
    obtain ⟨config, l, hl, hr⟩ := hbuilt.exists_ranking hlen
    have htake := congrArg List.head? (take_start_cursor hl config q.2 1)
    rwa [← hr, Cursor.head?_take_one, List.head?_take, if_neg Nat.one_ne_zero] at htake

/-- Queries that take turns between a router whose positions need separate words and one for which a
single word does. All routes have a variable, and so both leave candidates in the buffer. -/
theorem findRun_eq_alternating :
    let draft := fun n => ({} : Draft Nat).addAll
      ((List.range n).map fun i => (.source (.ofString (toString i ++ "\x7bx\x7d")), i))
    let router := fun n => ofRanking (draft n).config ((draft n).ranked Route.moreSpecific)
    let queries := [(router 65, .ofString "64"), (router 1, .ofString "64"),
      (router 65, .ofString "0"), (router 1, .ofString "01")]
    ((draft 65).routes.length = 65 ∧
      ((draft 65).routes.filter (·.isCandidate (.ofString "64"))).map (·.value) = [6, 64]) ∧
    ((draft 1).routes.length = 1 ∧
      ((draft 1).routes.filter (·.isCandidate (.ofString "01"))).map (·.value) = [0]) ∧
    findRun (.empty 0) queries = queries.map fun q => (q.1.findAll q.2).head? := by
  intro draft router queries
  have hdraft : (draft 65).routes.length = 65 ∧
      ((draft 65).routes.filter (·.isCandidate (.ofString "64"))).map (·.value) = [6, 64] := by
    decide +kernel
  have hdraft₁ : (draft 1).routes.length = 1 ∧
      ((draft 1).routes.filter (·.isCandidate (.ofString "01"))).map (·.value) = [0] := by
    decide +kernel
  have hbuilt : ∀ n, (router n).IsBuilt := fun n => Or.inr ⟨{}, _, Route.moreSpecific, rfl⟩
  have hsize : ∀ n, (router n).size = (draft n).routes.length :=
    fun n => (Draft.ranked_perm (draft n) Route.moreSpecific).length_eq
  have hlarge : (router 65).IsBuilt ∧ (router 65).size < 2 ^ 31 :=
    ⟨hbuilt 65, by rw [hsize, hdraft.1]; decide⟩
  have hsmall : (router 1).IsBuilt ∧ (router 1).size < 2 ^ 31 :=
    ⟨hbuilt 1, by rw [hsize, hdraft₁.1]; decide⟩
  refine ⟨hdraft, hdraft₁, (findRun_eq queries ?_ (.empty 0)).1⟩
  intro q hq
  simp only [queries, List.mem_cons, List.not_mem_nil, or_false] at hq
  rcases hq with rfl | rfl | rfl | rfl
  · exact hlarge
  · exact hsmall
  · exact hlarge
  · exact hsmall

end Router

end RouteTable
