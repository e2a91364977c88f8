import RouteTable.Proofs.Pattern.Accepted

/-!
# Normal rows of segments

* `Segment.IsNormal`: no literal is empty, and no two follow each other
* `isNormal_scanFrom`, `isNormal_normalize`: what is read is normal
* `Pattern.Accepted.shape_eq`: literal patterns of the same text have the same shape
-/

namespace RouteTable

theorem Variable.normalize_normalize (v : Variable) : v.normalize.normalize = v.normalize := by
  cases hv : v.isDefault <;> simp [normalize, hv]

namespace Segment

/-- No literal of the row is empty, and no two follow each other. -/
def IsNormal : List Segment → Prop
  | [] => True
  | var _ :: segments => IsNormal segments
  | literal text :: segments =>
    text ≠ [] ∧ (∀ next rest, segments ≠ literal next :: rest) ∧ IsNormal segments

theorem isNormal_prepend {segments : List Segment} (h : IsNormal segments) (text : Bytes) :
    IsNormal (prepend text segments) := by
  fun_cases prepend text segments with
  | case1 next segments => exact ⟨by simp [h.1], h.2⟩
  | case2 => exact h
  | case3 _ hnot ht => exact ⟨ht, hnot, h⟩

theorem isNormal_normalize (segments : List Segment) : IsNormal (normalize segments) := by
  fun_induction normalize segments with
  | case1 => trivial
  | case2 text segments ih => exact isNormal_prepend ih text
  | case3 v segments ih => exact ih

theorem isNormal_scanFrom {index : Nat} {s : Bytes} {segments : List Segment}
    (h : scanFrom index s = .ok segments) : IsNormal segments := by
  fun_induction scanFrom index s generalizing segments with
  | case1 =>
    obtain rfl := Except.ok.inj h
    trivial
  | case2 => exact nomatch h
  | case3 _ _ _ _ _ ih =>
    obtain ⟨segments', h', he⟩ := bind_eq_ok.1 h
    obtain rfl := Except.ok.inj he
    show IsNormal segments'
    exact ih h'
  | case4 _ _ _ _ _ _ ih =>
    obtain ⟨segments', h', he⟩ := bind_eq_ok.1 h
    obtain rfl := Except.ok.inj he
    exact isNormal_prepend (ih h') _
  | case5 _ _ _ _ _ _ ih =>
    obtain ⟨segments', h', he⟩ := bind_eq_ok.1 h
    obtain rfl := Except.ok.inj he
    exact isNormal_prepend (ih h') _
  | case6 =>
    obtain rfl := Except.ok.inj h
    exact ⟨List.cons_ne_nil _ _, fun _ _ => nofun, trivial⟩

theorem isNormal_scan {pattern : Bytes} {segments : List Segment}
    (h : scan pattern = .ok segments) : IsNormal segments := by
  rw [scan] at h
  split at h
  · cases hs : scanFrom 0 pattern with
    | error e =>
      rw [hs] at h
      exact nomatch h
    | ok segments' =>
      rw [hs] at h
      obtain rfl := Except.ok.inj h
      exact isNormal_scanFrom hs
  · exact nomatch h

/-- A normal row without variables is told by its text. -/
theorem IsNormal.eq_of_literalPrefix_eq {l l' : List Segment} (h : IsNormal l) (h' : IsNormal l')
    (hv : vars l = []) (hv' : vars l' = []) (he : literalPrefix l = literalPrefix l') : l = l' := by
  have hshort : ∀ {l}, IsNormal l → vars l = [] →
      l = [] ∨ ∃ text, text ≠ [] ∧ l = [literal text] := by
    intro l h hv
    match l, h, hv with
    | [], _, _ => exact Or.inl rfl
    | [literal text], h, _ => exact Or.inr ⟨text, h.1, rfl⟩
    | literal text :: literal next :: rest, h, _ => exact absurd rfl (h.2.1 next rest)
  rcases hshort h hv with rfl | ⟨text, ht, rfl⟩ <;>
    rcases hshort h' hv' with rfl | ⟨text', ht', rfl⟩
  · rfl
  · simp [literalPrefix, ht'.symm] at he
  · simp [literalPrefix, ht] at he
  · simpa [literalPrefix] using he

end Segment

namespace Pattern.Accepted

variable {p q : Pattern}

theorem isNormal (h : p.Accepted) : Segment.IsNormal p.segments := by
  obtain ⟨input, h⟩ := h
  cases input with
  | source text =>
    rw [PatternInput.read, parse] at h
    obtain ⟨segments, hs, h⟩ := bind_eq_ok.1 h
    obtain ⟨_, _, _, _, rfl⟩ := build_eq_ok_iff.1 h
    exact Segment.isNormal_scan hs
  | segments row =>
    simp only [PatternInput.read, compile] at h
    split at h
    · cases h
    · obtain ⟨_, _, _, _, rfl⟩ := build_eq_ok_iff.1 h
      exact Segment.isNormal_normalize row

theorem shape_eq (h : p.Accepted) (h' : q.Accepted) (hp : p.isLiteral) (hq : q.isLiteral)
    (he : p.literalPrefix = q.literalPrefix) : p.shape = q.shape := by
  rw [shape, shape, h.isNormal.eq_of_literalPrefix_eq h'.isNormal (h.isLiteral_iff.1 hp)
    (h'.isLiteral_iff.1 hq) he]

end Pattern.Accepted

end RouteTable
