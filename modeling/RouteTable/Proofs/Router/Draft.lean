import RouteTable.Proofs.Pattern.Normal
import RouteTable.Router.Draft

/-!
# Runs of a draft

* `Draft.WellFormed`: what additions keep of a draft
* `wellFormed_addAll`: it holds of all drafts
* `WellFormed.distinct_literals`: no two literal routes have the same text
-/

namespace RouteTable

/-! ## Shapes -/

namespace ShapeTable

theorem register_eq_ok_iff {t t' : ShapeTable} {p : Pattern} :
    t.register p = .ok t' ↔
      t.source? p.shape = none ∧ t' = { entries := (p.shape, p.source) :: t.entries } := by
  rw [register]
  cases t.source? p.shape with
  | none => simp [eq_comm]
  | some source => simp

theorem source?_eq_none_iff {t : ShapeTable} {shape : Bytes} :
    t.source? shape = none ↔ shape ∉ t.entries.map (·.1) := by
  rw [source?, List.lookup_eq_none_iff]
  constructor
  · intro h hm
    obtain ⟨e, he, rfl⟩ := List.mem_map.1 hm
    simpa using h e he
  · intro h e he
    simp only [bne_iff_ne, ne_eq]
    rintro rfl
    exact h (List.mem_map_of_mem he)

end ShapeTable

namespace Draft

variable {α : Type} {d d' : Draft α}

/-! ## Additions -/

theorem add_eq_ok_iff {p : Pattern} {value : α} :
    d.add p value = .ok d' ↔ d.shapes.source? p.shape = none ∧
      d' = { config := d.config
             shapes := { entries := (p.shape, p.source) :: d.shapes.entries }
             routes := d.routes ++ [⟨p, value⟩] } := by
  simp only [add, bind_eq_ok, ShapeTable.register_eq_ok_iff]
  constructor
  · intro h'
    obtain ⟨_, ⟨h, rfl⟩, he⟩ := h'
    exact ⟨h, (Except.ok.inj he).symm⟩
  · intro h'
    obtain ⟨h, rfl⟩ := h'
    exact ⟨_, ⟨h, rfl⟩, rfl⟩

theorem addInput_eq_ok_iff {input : PatternInput} {value : α} :
    d.addInput input value = .ok d' ↔ ∃ p, input.read = .ok p ∧ d.add p value = .ok d' := by
  rw [addInput]
  cases input.read with
  | error e => simp
  | ok p =>
    cases h : d.add p value with
    | error e => simp [Except.mapError, h]
    | ok d'' => simp [Except.mapError, h]

/-! ## What additions keep -/

/-- The routes have accepted patterns of different shapes, and the shapes that are remembered are
theirs. -/
structure WellFormed (d : Draft α) : Prop where
  accepted : ∀ x ∈ d.routes, x.pattern.Accepted
  entries_eq : d.shapes.entries =
    (d.routes.map fun x => (x.pattern.shape, x.pattern.source)).reverse
  nodup_shapes : (d.routes.map (·.pattern.shape)).Nodup

theorem wellFormed_empty (config : IndexConfig) : ({ config } : Draft α).WellFormed where
  accepted _ hx := absurd hx List.not_mem_nil
  entries_eq := rfl
  nodup_shapes := List.nodup_nil

theorem WellFormed.source?_eq_none_iff (h : d.WellFormed) {shape : Bytes} :
    d.shapes.source? shape = none ↔ ∀ x ∈ d.routes, x.pattern.shape ≠ shape := by
  rw [ShapeTable.source?_eq_none_iff, h.entries_eq]
  simp

theorem wellFormed_add (h : d.WellFormed) {p : Pattern} {value : α} (hp : p.Accepted)
    (hadd : d.add p value = .ok d') : d'.WellFormed := by
  obtain ⟨hnew, rfl⟩ := add_eq_ok_iff.1 hadd
  rw [h.source?_eq_none_iff] at hnew
  refine ⟨fun x hx => ?_, ?_, ?_⟩
  · rcases List.mem_append.1 hx with hx | hx
    · exact h.accepted x hx
    · rw [List.mem_singleton.1 hx]
      exact hp
  · show _ :: d.shapes.entries = _
    rw [h.entries_eq, List.map_append, List.reverse_append]
    rfl
  · rw [List.map_append, List.nodup_append]
    refine ⟨h.nodup_shapes, List.pairwise_singleton _ _, ?_⟩
    intro a ha b hb
    obtain ⟨x, hx, rfl⟩ := List.mem_map.1 ha
    rw [List.mem_singleton.1 hb]
    exact hnew x hx

theorem wellFormed_attempt (h : d.WellFormed) (input : PatternInput) (value : α) :
    (d.attempt input value).WellFormed := by
  rw [attempt]
  split
  · next d' hd =>
    obtain ⟨p, hp, hadd⟩ := addInput_eq_ok_iff.1 hd
    exact wellFormed_add h ⟨input, hp⟩ hadd
  · exact h

theorem wellFormed_addAll (h : d.WellFormed) (calls : List (PatternInput × α)) :
    (d.addAll calls).WellFormed := by
  induction calls generalizing d with
  | nil => exact h
  | cons call calls ih => exact ih (wellFormed_attempt h call.1 call.2)

namespace WellFormed

variable (h : d.WellFormed)

include h

theorem nodup_routes : d.routes.Nodup := by
  apply (List.pairwise_map.1 h.nodup_shapes).imp
  rintro x _ hne rfl
  exact hne rfl

theorem distinct_literals : d.routes.Pairwise fun x y =>
    x.pattern.isLiteral → y.pattern.isLiteral →
      x.pattern.literalPrefix ≠ y.pattern.literalPrefix := by
  have hp := List.pairwise_map.1 h.nodup_shapes
  apply hp.imp_of_mem
  intro x y hx hy hne hlx hly he
  exact hne ((h.accepted x hx).shape_eq (h.accepted y hy) hlx hly he)

theorem distinct_literals_of_perm {l : List (Route α)} (hl : l.Perm d.routes) :
    l.Pairwise fun x y => x.pattern.isLiteral → y.pattern.isLiteral →
      x.pattern.literalPrefix ≠ y.pattern.literalPrefix := by
  refine (hl.pairwise_iff ?_).2 h.distinct_literals
  intro x y hxy hy hx
  exact (hxy hx hy).symm

end WellFormed

end Draft

end RouteTable
