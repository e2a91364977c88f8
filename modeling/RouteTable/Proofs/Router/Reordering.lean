import RouteTable.Proofs.Router.Extension

/-!
# Routes added in another order

The order in which routes are added breaks ties and does nothing else. Two drafts of the same routes
make routers with the same answers if the routes that are equal under the comparison were added to
both in the same order, whatever the kinds of their indices.

* `Router.Agree`: the same ranking and the same answers
* `Router.agree_ofRanking`: the kind of the index makes no difference
* `Router.agree_of_perm`: the order of the additions only counts for routes that are equal
-/

namespace RouteTable.Router

variable {α : Type}

/-- Two routers with the same ranked routes that answer every query in the same way, whatever their
buffers held before. -/
structure Agree (r r' : Router α) : Prop where
  routes_eq : r.routes = r'.routes
  findAll_eq : ∀ path, r.findAll path = r'.findAll path
  find_eq : ∀ path buffer buffer', (r.find path buffer).1 = (r'.find path buffer').1
  take_eq : ∀ path n, (r.cursor path).start.take n = (r'.cursor path).start.take n

theorem agree_ofRanking {l : List (Route α)} (h : Ranking l) (config config' : IndexConfig) :
    (ofRanking config l).Agree (ofRanking config' l) := by
  have hall : ∀ path, (ofRanking config l).findAll path = (ofRanking config' l).findAll path := by
    intro path
    rw [findAll_ofRanking h, findAll_ofRanking h]
  refine ⟨rfl, hall, fun path buffer buffer' => ?_, fun path n => ?_⟩
  · rw [find_ofRanking h, find_ofRanking h, hall]
  · rw [take_start_cursor h, take_start_cursor h, hall]

/-- Of two drafts with the same routes, under a comparison that ranks them, the routers agree if any
two routes of which none is preferred to the other were added to both in the same order. If the
comparison tells all routes apart, the order of the additions does not matter. -/
theorem agree_of_perm (config config' : IndexConfig) (calls calls' : List (PatternInput × α))
    (prefers : Route α → Route α → Bool)
    (h : StrictWeakOrder (({ config } : Draft α).addAll calls).routes prefers)
    (hlen : (({ config } : Draft α).addAll calls).routes.length < 2 ^ 31)
    (hperm : (({ config := config' } : Draft α).addAll calls').routes.Perm
      (({ config } : Draft α).addAll calls).routes) :
    let d := ({ config } : Draft α).addAll calls
    let d' := ({ config := config' } : Draft α).addAll calls'
    ∃ r r' : Router α, ofDraft d (some prefers) = .ok r ∧
      ofDraft d' (some prefers) = .ok r' ∧
      ((∀ x ∈ d.routes, ∀ y ∈ d.routes, prefers x y = false → prefers y x = false →
        [x, y].Sublist d.routes → [x, y].Sublist d'.routes) → r.Agree r') ∧
      ((∀ x ∈ d.routes, ∀ y ∈ d.routes, x ≠ y → prefers x y ∨ prefers y x) → r.Agree r') := by
  intro d d'
  have hwf : d.WellFormed := Draft.wellFormed_addAll (Draft.wellFormed_empty config) calls
  have hrank : Ranking (d.ranked prefers) := .of_perm hwf (d.ranked_perm prefers) hlen
  have hagree : (∀ x ∈ d.routes, ∀ y ∈ d.routes, prefers x y = false → prefers y x = false →
      [x, y].Sublist d.routes → [x, y].Sublist d'.routes) →
      (ofRanking d.config (d.ranked prefers)).Agree (ofRanking d'.config (d'.ranked prefers)) := by
    intro hties
    rw [Draft.ranked_eq_of_perm h hwf.nodup_routes hperm]
    · exact agree_ofRanking hrank _ _
    · intro x y hxy hyx hsub
      exact hties x (hsub.subset (by simp)) y (hsub.subset (by simp)) hxy hyx hsub
  refine ⟨_, _, rfl, rfl, hagree, fun hapart => hagree fun x hx y hy hxy hyx hsub => ?_⟩
  -- There are no ties: two routes of a draft differ.
  have hne : x ≠ y := List.Pairwise.forall_sublist hwf.nodup_routes hsub
  rcases hapart x hx y hy hne with hp | hp
  · exact absurd hp (by rw [hxy]; exact Bool.false_ne_true)
  · exact absurd hp (by rw [hyx]; exact Bool.false_ne_true)

/-- Three routes with variables, two of them equal, and a literal one. One router has a list and the
other one a trie. -/
theorem agree_of_perm_tied :
    let calls : List (PatternInput × Nat) :=
      [(.source (.ofString "/{x}"), 0), (.source (.ofString "/a{x}"), 1),
        (.source (.ofString "/a"), 2), (.source (.ofString "/b{x}"), 3)]
    let calls' : List (PatternInput × Nat) :=
      [(.source (.ofString "/a"), 2), (.source (.ofString "/a{x}"), 1),
        (.source (.ofString "/b{x}"), 3), (.source (.ofString "/\x7by"), 4),
        (.source (.ofString "/{x}"), 0)]
    let d := ({ config := { kind := .flat } } : Draft Nat).addAll calls
    let d' := ({ config := { kind := .trie } } : Draft Nat).addAll calls'
    ∃ r r', ofDraft d (some Route.moreSpecific) = .ok r ∧ r.index.kind = .flat ∧
      ofDraft d' (some Route.moreSpecific) = .ok r' ∧ r'.index.kind = .trie ∧ r.Agree r' := by
  intro calls calls' d d'
  have hrun : d.routes.length = 4 ∧ d'.routes.Perm d.routes ∧
      d.config.choosesFlat (d.routes.map (·.pattern)) ∧
      d'.config.choosesFlat (d'.routes.map (·.pattern)) = false := by
    decide +kernel
  have hties : ∀ x ∈ d.routes, ∀ y ∈ d.routes, Route.moreSpecific x y = false →
      Route.moreSpecific y x = false → [x, y].Sublist d.routes → [x, y].Sublist d'.routes := by
    decide +kernel
  obtain ⟨hlen, hperm, hflat, htrie⟩ := hrun
  obtain ⟨r, r', hr, hr', hagree, -⟩ := agree_of_perm _ _ calls calls' Route.moreSpecific
    (strictWeakOrder_moreSpecific _) (hlen.trans_lt (by decide)) hperm
  refine ⟨r, r', hr, ?_, hr', ?_, hagree hties⟩
  · rw [kind_of_ofDraft hr, if_pos hflat]
  · rw [kind_of_ofDraft hr', htrie]
    rfl

end RouteTable.Router
