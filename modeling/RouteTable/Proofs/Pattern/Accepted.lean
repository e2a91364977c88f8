import RouteTable.Pattern.Basic
import RouteTable.Proofs.Pattern.Validation

/-!
# Accepted patterns

* `Pattern.Accepted`: a pattern that was read from something
* `build_eq_ok_iff`: a row of segments is built into a pattern if it is valid and has a matcher
* `Accepted.isLiteral_iff`: literal patterns are those without variables
-/

namespace RouteTable

def Pattern.Accepted (p : Pattern) : Prop :=
  ∃ input : PatternInput, input.read = .ok p

theorem exists_of_toOption_map {ε α β : Type} {x : Except ε α} {f : α → β} {b : β}
    (h : x.toOption.map f = some b) : ∃ a, x = .ok a ∧ f a = b := by
  cases x with
  | error e => exact nomatch h
  | ok a => exact ⟨a, rfl, Option.some.inj h⟩

/-- A list of pairs whose first parts differ is looked up at each of them. -/
theorem lookup_eq_some_of_mem {κ β : Type} [BEq κ] [LawfulBEq κ] {l : List (κ × β)}
    (h : (l.map (·.1)).Nodup) {key : κ} {value : β} (hm : (key, value) ∈ l) :
    l.lookup key = some value := by
  induction l with
  | nil => exact absurd hm List.not_mem_nil
  | cons x l ih =>
    obtain ⟨hx, hl⟩ := List.nodup_cons.1 h
    rcases List.mem_cons.1 hm with rfl | hm
    · exact List.lookup_cons_self
    · have hne : (key == x.1) = false := by
        rw [beq_eq_false_iff_ne]
        rintro rfl
        exact hx (List.mem_map.2 ⟨_, hm, rfl⟩)
      rw [List.lookup_cons, hne]
      exact ih hl hm

/-! ## Leading literals -/

namespace Segment

variable {segments : List Segment}

theorem isValid_literalPrefix (h : ∀ text, literal text ∈ segments → Utf8.isValid text) :
    Utf8.isValid (literalPrefix segments) := by
  fun_induction literalPrefix segments with
  | case1 text segments ih =>
    rw [Utf8.isValid_append (h text List.mem_cons_self)]
    exact ih fun text' hm => h text' (List.mem_cons_of_mem _ hm)
  | case2 => rfl

end Segment

/-! ## Accepted patterns -/

namespace Pattern

variable {p : Pattern} {source : Bytes} {segments : List Segment} {counts : List Nat}

theorem makeMatcher_eq_ok_none_iff :
    makeMatcher segments counts = .ok none ↔ Segment.vars segments = [] := by
  simp only [makeMatcher, List.isEmpty_iff, List.map_eq_nil_iff]
  split
  · next h => exact iff_of_true rfl h
  · next h =>
    refine iff_of_false ?_ h
    split <;> simp

theorem makeMatcher_eq_ok_some_iff {m : Matcher} :
    makeMatcher segments counts = .ok (some m) ↔ Segment.vars segments ≠ [] ∧
      Regex.ofBytes? (segments.flatMap Segment.expression) = some m.regex ∧
      m.captures = ((Segment.vars segments).map (·.name)).zip (Segment.groupIndices 1 counts) := by
  simp only [makeMatcher, List.isEmpty_iff, List.map_eq_nil_iff]
  split
  · next h => simp [h]
  · next h =>
    cases hr : Regex.ofBytes? (segments.flatMap Segment.expression) with
    | none => simp
    | some r =>
      cases m
      simp [h, eq_comm]

theorem eq_cannotCompile_of_makeMatcher {fault : PatternFault}
    (h : makeMatcher segments counts = .error fault) :
    fault = .cannotCompile (segments.flatMap Segment.expression) := by
  simp only [makeMatcher] at h
  split at h
  · cases h
  · split at h
    · cases h
    · exact (Except.error.inj h).symm

theorem build_eq_ok_iff :
    build source segments = .ok p ↔ ∃ counts matcher, Segment.validate segments = .ok counts ∧
      makeMatcher segments counts = .ok matcher ∧ p = { source, segments, matcher } := by
  rw [build]
  constructor
  · intro h
    split at h
    · next matcher hm =>
      obtain ⟨counts, hc, hm⟩ := bind_eq_ok.1 hm
      exact ⟨counts, matcher, hc, hm, (Except.ok.inj h).symm⟩
    · exact nomatch h
  · intro h
    obtain ⟨counts, matcher, hc, hm, rfl⟩ := h
    rw [bind_eq_ok.2 ⟨counts, hc, hm⟩]

/-- A pattern is made in one way, whatever it was read from. -/
theorem Accepted.build_eq (h : p.Accepted) : build p.source p.segments = .ok p := by
  have hbuild : ∃ source segments, build source segments = .ok p := by
    obtain ⟨input, h⟩ := h
    cases input with
    | source text =>
      rw [PatternInput.read, parse] at h
      obtain ⟨segments, -, h⟩ := bind_eq_ok.1 h
      exact ⟨text, segments, h⟩
    | segments row =>
      simp only [PatternInput.read, compile] at h
      split at h
      · exact nomatch h
      · exact ⟨_, _, h⟩
  obtain ⟨source, segments, h⟩ := hbuild
  obtain ⟨_, _, _, _, rfl⟩ := build_eq_ok_iff.1 h
  exact h

theorem accepted_of_mem_filterMap_parse {sources : List Bytes} {p : Pattern}
    (h : p ∈ sources.filterMap fun s => (parse s).toOption) : p.Accepted := by
  obtain ⟨s, -, hs⟩ := List.mem_filterMap.1 h
  refine ⟨.source s, ?_⟩
  show parse s = .ok p
  generalize parse s = x at hs
  cases x with
  | error e => exact nomatch hs
  | ok q => rw [Option.some.inj hs]

namespace Accepted

theorem exists_counts (h : p.Accepted) : ∃ counts, Segment.validate p.segments = .ok counts ∧
    makeMatcher p.segments counts = .ok p.matcher := by
  obtain ⟨counts, matcher, hc, hm, hp⟩ := build_eq_ok_iff.1 h.build_eq
  rw [hp] at hc ⊢
  exact ⟨counts, hc, hm⟩

theorem isValid_literalPrefix (h : p.Accepted) : Utf8.isValid p.literalPrefix := by
  obtain ⟨counts, hc, -⟩ := h.exists_counts
  exact Segment.isValid_literalPrefix fun text => Segment.isValid_of_validateWith hc

theorem isLiteral_iff (h : p.Accepted) : p.isLiteral ↔ Segment.vars p.segments = [] := by
  obtain ⟨counts, -, hm⟩ := h.exists_counts
  rw [isLiteral, Option.isNone_iff_eq_none, ← @makeMatcher_eq_ok_none_iff _ counts, hm,
    Except.ok.injEq]

end Accepted

end Pattern

end RouteTable
