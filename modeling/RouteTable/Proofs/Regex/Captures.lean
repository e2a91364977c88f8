import RouteTable.Proofs.Regex.Semantics

/-!
# Captured texts

* `capture_append_left`, `capture_append_right`: marks of other groups do not matter
* `capture_group`: a group captures the text between its marks
-/

namespace RouteTable.Regex

def Mark.openedAt? (i : Nat) : Mark → Option Nat
  | opened index pos => if index = i then some pos else none
  | closed _ _ => none

def Mark.closedAt? (i : Nat) : Mark → Option Nat
  | closed index pos => if index = i then some pos else none
  | opened _ _ => none

variable {i start stop : Nat} {text : List Char} {ms ms' : List Mark}

theorem Mark.openedAt?_eq_none {m : Mark} (h : m.index ≠ i) : m.openedAt? i = none := by
  cases m with
  | opened index pos => exact if_neg h
  | closed index pos => rfl

theorem Mark.closedAt?_eq_none {m : Mark} (h : m.index ≠ i) : m.closedAt? i = none := by
  cases m with
  | opened index pos => rfl
  | closed index pos => exact if_neg h

theorem findSome?_openedAt?_eq_none (h : ∀ m ∈ ms, m.index ≠ i) :
    ms.findSome? (Mark.openedAt? i) = none :=
  List.findSome?_eq_none_iff.2 fun m hm => Mark.openedAt?_eq_none (h m hm)

theorem findSome?_closedAt?_eq_none (h : ∀ m ∈ ms, m.index ≠ i) :
    ms.findSome? (Mark.closedAt? i) = none :=
  List.findSome?_eq_none_iff.2 fun m hm => Mark.closedAt?_eq_none (h m hm)

theorem span?_eq (i : Nat) (ms : List Mark) :
    span? i ms = (ms.findSome? (Mark.closedAt? i)).bind fun stop =>
      (ms.findSome? (Mark.openedAt? i)).bind fun start => some (start, stop) :=
  rfl

theorem span?_append_left (h : ∀ m ∈ ms, m.index ≠ i) :
    span? i (ms ++ ms') = span? i ms' := by
  rw [span?_eq, span?_eq, List.findSome?_append, List.findSome?_append,
    findSome?_closedAt?_eq_none h, findSome?_openedAt?_eq_none h, Option.none_or, Option.none_or]

theorem span?_append_right (h : ∀ m ∈ ms', m.index ≠ i) :
    span? i (ms ++ ms') = span? i ms := by
  rw [span?_eq, span?_eq, List.findSome?_append, List.findSome?_append,
    findSome?_closedAt?_eq_none h, findSome?_openedAt?_eq_none h, Option.or_none, Option.or_none]

theorem capture_append_left (h : ∀ m ∈ ms, m.index ≠ i) :
    capture text (ms ++ ms') i = capture text ms' i := by
  unfold capture
  rw [span?_append_left h]

theorem capture_append_right (h : ∀ m ∈ ms', m.index ≠ i) :
    capture text (ms ++ ms') i = capture text ms i := by
  unfold capture
  rw [span?_append_right h]

/-- A group whose marks are not repeated captures the text between them. -/
theorem capture_group (h : ∀ m ∈ ms, m.index ≠ i) :
    capture text (Mark.opened i start :: ms ++ [Mark.closed i stop]).reverse i =
      (text.drop start).take (stop - start) := by
  have hspan : span? i (Mark.opened i start :: ms ++ [Mark.closed i stop]).reverse =
      some (start, stop) := by
    have hclosed : (Mark.closed i stop).closedAt? i = some stop := if_pos rfl
    have hopened : (Mark.opened i start).openedAt? i = some start := if_pos rfl
    have hskip : (Mark.closed i stop).openedAt? i = none := rfl
    have hms : ms.reverse.findSome? (Mark.openedAt? i) = none :=
      findSome?_openedAt?_eq_none fun m hm => h m (List.mem_reverse.1 hm)
    simp [span?_eq, hclosed, hopened, hskip, hms]
  unfold capture
  rw [hspan]

end RouteTable.Regex
