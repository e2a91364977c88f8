import Mathlib
import RouteTable.Proofs.Router.Draft

/-!
# Which routes are registered

* `addInPlace_eq`: an addition that is refused has changed nothing
* `WellFormed.source?_shape`: the shape of each route is remembered with the text of its pattern
* `addAll_registers`: the routes of a row of additions, and what another addition does
-/

namespace RouteTable

variable {α : Type}

namespace Route

/-- The route that an addition is about, if what its pattern is read from is a pattern. -/
def ofCall? (call : PatternInput × α) : Option (Route α) :=
  call.1.read.toOption.map (⟨·, call.2⟩)

def sameShape (x y : Route α) : Bool :=
  x.pattern.shape == y.pattern.shape

end Route

namespace Draft

variable {d : Draft α} {input : PatternInput} {value : α} {p : Pattern}

/-! ## Additions in place -/

theorem addInput_of_error {e : PatternError} (h : input.read = .error e) :
    d.addInput input value = .error (.invalid e) := by
  rw [addInput, h]

theorem addInput_of_duplicate (h : input.read = .ok p) {source : Bytes}
    (hs : d.shapes.source? p.shape = some source) :
    d.addInput input value = .error (.duplicate ⟨p.source, source⟩) := by
  rw [addInput, h]
  simp [add, ShapeTable.register, hs, bind, Except.bind, Except.mapError]

/-- The two steps of an addition come to what the whole of it is, and a refused addition has changed
nothing. -/
theorem addInPlace_eq (input : PatternInput) (value : α) (d : Draft α) :
    addInPlace input value d = match d.addInput input value with
      | .ok d' => .ok () d'
      | .error e => .error e d := by
  cases hread : input.read with
  | error e =>
    rw [addInput_of_error hread, addInPlace, hread]
    rfl
  | ok p =>
    rw [addInPlace, hread]
    show EStateM.bind (registerInPlace p) _ d = _
    cases hs : d.shapes.source? p.shape with
    | none =>
      rw [addInput_eq_ok_iff.2 ⟨p, hread, add_eq_ok_iff.2 ⟨hs, rfl⟩⟩, EStateM.bind,
        registerInPlace, hs]
      rfl
    | some source => rw [addInput_of_duplicate hread hs, EStateM.bind, registerInPlace, hs]

/-! ## Shapes of routes -/

namespace WellFormed

variable (h : d.WellFormed)

include h

theorem size_shapes : d.shapes.size = d.size := by
  rw [ShapeTable.size, h.entries_eq, List.length_reverse, List.length_map, size]

theorem source?_shape {x : Route α} (hx : x ∈ d.routes) :
    d.shapes.source? x.pattern.shape = some x.pattern.source := by
  apply lookup_eq_some_of_mem
  · rw [h.entries_eq, List.map_reverse, List.nodup_reverse, List.map_map]
    exact h.nodup_shapes
  · rw [h.entries_eq, List.mem_reverse]
    exact List.mem_map.2 ⟨x, hx, rfl⟩

theorem eq_of_shape_eq {x y : Route α} (hx : x ∈ d.routes) (hy : y ∈ d.routes)
    (he : x.pattern.shape = y.pattern.shape) : x = y :=
  List.inj_on_of_nodup_map h.nodup_shapes hx hy he

end WellFormed

/-! ## Runs -/

theorem addAll_append (d : Draft α) (calls calls' : List (PatternInput × α)) :
    d.addAll (calls ++ calls') = (d.addAll calls).addAll calls' :=
  List.foldl_append

/-- What an addition does: the pattern is invalid, it has the shape of one route, or it has the
shape of none. -/
theorem WellFormed.attempt_cases (h : d.WellFormed) (input : PatternInput) (value : α) :
    (∀ e, input.read = .error e →
      addInPlace input value d = .error (.invalid e) d ∧ d.attempt input value = d) ∧
    ∀ p, input.read = .ok p →
      (∃ x ∈ d.routes, x.pattern.shape = p.shape ∧
        addInPlace input value d = .error (.duplicate ⟨p.source, x.pattern.source⟩) d ∧
        d.attempt input value = d) ∨
      ((∀ x ∈ d.routes, x.pattern.shape ≠ p.shape) ∧
        addInPlace input value d = .ok () (d.attempt input value) ∧
        (d.attempt input value).routes = d.routes ++ [⟨p, value⟩]) := by
  rw [addInPlace_eq, attempt]
  refine ⟨fun e he => ?_, fun p hp => ?_⟩
  · rw [addInput_of_error he]
    exact ⟨rfl, rfl⟩
  · by_cases hs : ∀ x ∈ d.routes, x.pattern.shape ≠ p.shape
    · rw [addInput_eq_ok_iff.2 ⟨p, hp, add_eq_ok_iff.2 ⟨h.source?_eq_none_iff.2 hs, rfl⟩⟩]
      exact .inr ⟨hs, rfl, rfl⟩
    · simp only [not_forall, ne_eq, not_not] at hs
      obtain ⟨x, hx, he⟩ := hs
      rw [addInput_of_duplicate hp (he ▸ h.source?_shape hx)]
      exact .inl ⟨x, hx, he, rfl, rfl⟩

/-- The routes are those for valid patterns, without the ones of a shape that an earlier one has. -/
theorem WellFormed.routes_addAll (h : d.WellFormed) (calls : List (PatternInput × α)) :
    (d.addAll calls).routes =
      List.eraseDupsBy.loop Route.sameShape (calls.filterMap Route.ofCall?) d.routes.reverse := by
  induction calls generalizing d with
  | nil => exact (List.reverse_reverse d.routes).symm
  | cons call calls ih =>
    obtain ⟨input, value⟩ := call
    have ih := ih (wellFormed_attempt h input value)
    obtain ⟨hinvalid, hvalid⟩ := h.attempt_cases input value
    show ((d.attempt input value).addAll calls).routes = _
    cases hread : input.read with
    | error e =>
      have hroute : Route.ofCall? (input, value) = none := by
        rw [Route.ofCall?, hread]
        rfl
      rw [ih, (hinvalid e hread).2, List.filterMap_cons_none hroute]
    | ok p =>
      have hroute : Route.ofCall? (input, value) = some ⟨p, value⟩ := by
        rw [Route.ofCall?, hread]
        rfl
      rw [ih, List.filterMap_cons_some hroute, List.eraseDupsBy.loop]
      rcases hvalid p hread with ⟨x, hx, he, -, hd⟩ | ⟨hnew, -, hroutes⟩
      · have hany : d.routes.reverse.any (Route.sameShape ⟨p, value⟩) = true :=
          List.any_eq_true.2 ⟨x, List.mem_reverse.2 hx, beq_iff_eq.2 he.symm⟩
        rw [hany, hd]
      · have hany : d.routes.reverse.any (Route.sameShape ⟨p, value⟩) = false := by
          rw [List.any_eq_false]
          intro x hx
          rw [Route.sameShape, beq_iff_eq]
          exact fun he => hnew x (List.mem_reverse.1 hx) he.symm
        rw [hany, hroutes, List.reverse_append]
        rfl

/-- The routes of a row of additions are, in their order, those for valid patterns of which none
before has the same shape. As many shapes are remembered, and the shape of each route with the text
of its pattern. Another addition is refused without any change if its pattern is invalid, or if it
has the shape of a route, of which there is one, and adds its route to the others if not. -/
theorem addAll_registers (config : IndexConfig) (calls : List (PatternInput × α)) :
    let d := ({ config } : Draft α).addAll calls
    d.routes = (calls.filterMap Route.ofCall?).eraseDupsBy Route.sameShape ∧
    d.shapes.size = d.size ∧
    (∀ x ∈ d.routes, d.shapes.source? x.pattern.shape = some x.pattern.source) ∧
    ∀ input value,
      let d' := ({ config } : Draft α).addAll (calls ++ [(input, value)])
      (∀ e, input.read = .error e →
        addInPlace input value d = .error (.invalid e) d ∧ d' = d) ∧
      ∀ p, input.read = .ok p →
        (∃ x ∈ d.routes, x.pattern.shape = p.shape ∧
          (∀ y ∈ d.routes, y.pattern.shape = p.shape → y = x) ∧
          addInPlace input value d = .error (.duplicate ⟨p.source, x.pattern.source⟩) d ∧
            d' = d) ∨
        ((∀ x ∈ d.routes, x.pattern.shape ≠ p.shape) ∧
          addInPlace input value d = .ok () d' ∧
          d'.routes = d.routes ++ [⟨p, value⟩]) := by
  intro d
  have h : d.WellFormed := wellFormed_addAll (wellFormed_empty config) calls
  refine ⟨(wellFormed_empty config).routes_addAll calls, h.size_shapes,
    fun x => h.source?_shape, ?_⟩
  intro input value d'
  have hd' : d' = d.attempt input value := addAll_append _ calls _
  obtain ⟨hinvalid, hvalid⟩ := h.attempt_cases input value
  rw [hd']
  refine ⟨hinvalid, fun p hp => (hvalid p hp).imp ?_ id⟩
  rintro ⟨x, hx, he, hadd, hd⟩
  exact ⟨x, hx, he, fun y hy hy' => h.eq_of_shape_eq hy hx (hy'.trans he.symm), hadd, hd⟩

end Draft

end RouteTable
