import RouteTable.Proofs.Router.Answers

/-!
# One route more

The routes that a path matches do not depend on which other routes there are. With one route more,
the others get other places in the ranking, and their index may be of another kind, but they are
found as before.

* `Router.findAll_filter`: the answers of a router of some of the routes
* `Router.kind_of_ofDraft`: which kind of index a router has
* `Router.findAll_addInput`: the answers before and after an addition
-/

namespace RouteTable

variable {α : Type}

/-! ## Accepted additions -/

namespace Draft

variable {d d' : Draft α}

/-- An accepted addition puts one route behind the others. None of these has its pattern. -/
theorem WellFormed.routes_of_addInput (h : d.WellFormed) {input : PatternInput} {value : α}
    (hadd : d.addInput input value = .ok d') : d'.WellFormed ∧ ∃ p, input.read = .ok p ∧
      d'.routes = d.routes ++ [⟨p, value⟩] ∧ ∀ x ∈ d.routes, x.pattern ≠ p := by
  obtain ⟨p, hp, hadd⟩ := addInput_eq_ok_iff.1 hadd
  have hwf := wellFormed_add h ⟨input, hp⟩ hadd
  obtain ⟨hshape, rfl⟩ := add_eq_ok_iff.1 hadd
  refine ⟨hwf, p, hp, rfl, fun x hx he => ?_⟩
  exact h.source?_eq_none_iff.1 hshape x hx (congrArg Pattern.shape he)

end Draft

/-! ## Answers of some of the routes -/

namespace Router

theorem filterMap_match?_filter (l : List (Route α)) (path : Bytes) (keep : Route α → Bool) :
    (l.filter keep).filterMap (·.match? path) =
      (l.filterMap (·.match? path)).filter fun f => keep f.route := by
  rw [List.filterMap_filter, List.filter_filterMap]
  refine List.filterMap_congr fun x _ => ?_
  cases hm : x.match? path with
  | none => simp
  | some f => rw [Option.filter_some, (Route.match?_eq_some_iff.1 hm).1]

section Answers

variable {l : List (Route α)} (h : Ranking l) (config config' : IndexConfig) (path : Bytes)

include h

/-- A router of some of the routes answers as the router of all of them, less the other routes. The
indices may be of different kinds. -/
theorem findAll_filter (keep : Route α → Bool) :
    (ofRanking config' (l.filter keep)).findAll path =
    ((ofRanking config l).findAll path).filter fun f => keep f.route := by
  rw [findAll_eq_filter h, findAll_eq_filter (h.filter keep), List.filter_append, List.filter_map,
    ← filterMap_match?_filter, List.filter_comm _ keep, List.filter_comm _ keep]
  rfl

theorem literalPrefix_of_mem_findAll {f : Found α} (hf : f ∈ (ofRanking config l).findAll path)
    (hliteral : f.route.pattern.isLiteral) : f.route.pattern.literalPrefix = path := by
  rw [findAll_eq_filter h, List.mem_append, List.mem_map, List.mem_filterMap] at hf
  rcases hf with ⟨x, hx, rfl⟩ | ⟨x, hx, hm⟩
  · exact (Route.isExact_iff.1 (List.mem_filter.1 hx).2).2
  · -- A candidate has variables.
    obtain ⟨rfl, -⟩ := Route.match?_eq_some_iff.1 hm
    have hx := (List.mem_filter.1 hx).2
    rw [Route.isCandidate, hliteral] at hx
    exact absurd hx Bool.false_ne_true

end Answers

/-! ## Routers before and after an addition -/

/-- Which kind of index a router has does not depend on how its routes are ranked. -/
theorem kind_of_ofDraft {d : Draft α} {prefers : Route α → Route α → Bool} {r : Router α}
    (h : ofDraft d (some prefers) = .ok r) :
    r.index.kind = if d.config.choosesFlat (d.routes.map (·.pattern)) then .flat else .trie := by
  obtain rfl := Except.ok.inj h
  have hperm : ((d.ranked prefers).map (·.pattern)).Perm (d.routes.map (·.pattern)) :=
    (d.ranked_perm prefers).map _
  have hflat : d.config.choosesFlat ((d.ranked prefers).map (·.pattern)) =
      d.config.choosesFlat (d.routes.map (·.pattern)) := by
    rw [IndexConfig.choosesFlat, IndexConfig.choosesFlat, hperm.countP_eq]
  rw [ofRanking, Index.build, Index.kind, hflat]
  split <;> split <;> simp_all

/-- An accepted addition changes nothing for the other routes: the router of the draft after it
answers, less the new route, with what the router of the draft before it answers. A new literal
route does not even appear in the answers for other paths than its text. -/
theorem findAll_addInput (config : IndexConfig) (calls : List (PatternInput × α))
    (input : PatternInput) (value : α) {d' : Draft α}
    (hadd : (({ config } : Draft α).addAll calls).addInput input value = .ok d')
    (prefers : Route α → Route α → Bool) (h : StrictWeakOrder d'.routes prefers)
    (hlen : (({ config } : Draft α).addAll calls).routes.length < 2 ^ 31 - 1) :
    let d := ({ config } : Draft α).addAll calls
    ∃ (r r' : Router α) (p : Pattern),
      ofDraft d (some prefers) = .ok r ∧ ofDraft d' (some prefers) = .ok r' ∧
      input.read = .ok p ∧ d'.routes = d.routes ++ [⟨p, value⟩] ∧
        (∀ x ∈ d.routes, x.pattern ≠ p) ∧
      (∀ path, (r'.findAll path).filter (fun f => f.route.pattern ≠ p) = r.findAll path) ∧
      (p.isLiteral → ∀ path, path ≠ p.literalPrefix →
        r'.findAll path = r.findAll path ∧
        ∀ buffer buffer', (r'.find path buffer').1 = (r.find path buffer).1) := by
  intro d
  have hwf : d.WellFormed := Draft.wellFormed_addAll (Draft.wellFormed_empty config) calls
  obtain ⟨hwf', p, hp, hroutes, hnew⟩ := hwf.routes_of_addInput hadd
  have hrank : Ranking (d'.ranked prefers) := by
    refine .of_perm hwf' (d'.ranked_perm prefers) ?_
    rw [hroutes, List.length_append, List.length_singleton]
    exact Nat.add_lt_of_lt_sub hlen
  have hold : d.routes = d'.routes.filter fun x => x.pattern ≠ p := by
    rw [hroutes, List.filter_append, List.filter_eq_self.2 fun x hx => decide_eq_true (hnew x hx),
      List.filter_cons_of_neg (by simp), List.filter_nil, List.append_nil]
  have hranked := Draft.ranked_filter h hwf'.nodup_routes hold
  have hrank₀ : Ranking (d.ranked prefers) := hranked ▸ hrank.filter _
  have hall : ∀ path, ((ofRanking d'.config (d'.ranked prefers)).findAll path).filter
      (fun f => f.route.pattern ≠ p) = (ofRanking d.config (d.ranked prefers)).findAll path := by
    intro path
    rw [hranked, findAll_filter hrank]
  refine ⟨_, _, p, rfl, rfl, hp, hroutes, hnew, hall, fun hliteral path hpath => ?_⟩
  have hsame : (ofRanking d'.config (d'.ranked prefers)).findAll path =
      (ofRanking d.config (d.ranked prefers)).findAll path := by
    rw [← hall path, List.filter_eq_self.2]
    intro f hf
    refine decide_eq_true fun he => hpath ?_
    rw [← he] at hliteral ⊢
    exact (literalPrefix_of_mem_findAll hrank _ path hf hliteral).symm
  refine ⟨hsame, fun buffer buffer' => ?_⟩
  rw [find_ofRanking hrank, find_ofRanking hrank₀, hsame]

/-- The 65th route with variables makes the index a trie, and its position needs a second word. -/
theorem findAll_addInput_widened :
    let calls := (List.range 64).map fun i =>
      (PatternInput.source (.ofString ("/" ++ toString i ++ "{x}")), i)
    let d := ({} : Draft Nat).addAll calls
    ∃ d' r r' p, d.addInput (.source (.ofString "/{x}")) 64 = .ok d' ∧
      ofDraft d (some Route.moreSpecific) = .ok r ∧ r.index.kind = .flat ∧
      ofDraft d' (some Route.moreSpecific) = .ok r' ∧ r'.index.kind = .trie ∧
      ∀ path, (r'.findAll path).filter (fun f => f.route.pattern ≠ p) = r.findAll path := by
  intro calls d
  have hrun : d.routes.length = 64 ∧ d.config.choosesFlat (d.routes.map (·.pattern)) ∧
      (d.addInput (.source (.ofString "/{x}")) 64).toOption.map (fun d' =>
        d'.config.choosesFlat (d'.routes.map (·.pattern))) = some false := by
    decide +kernel
  obtain ⟨hlen, hflat, hadded⟩ := hrun
  obtain ⟨d', hadd, htrie⟩ := exists_of_toOption_map hadded
  obtain ⟨r, r', p, hr, hr', -, -, -, hall, -⟩ :=
    findAll_addInput {} calls _ 64 hadd Route.moreSpecific
    (strictWeakOrder_moreSpecific _) (by rw [hlen]; decide)
  refine ⟨d', r, r', p, hadd, hr, ?_, hr', ?_, hall⟩
  · rw [kind_of_ofDraft hr, if_pos hflat]
  · rw [kind_of_ofDraft hr', htrie]
    rfl

end Router

end RouteTable
