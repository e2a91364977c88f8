import Mathlib
import RouteTable.Utf8.Basic

/-!
# Sequences and boundaries of UTF-8 texts

A well-formed text is a row of sequences, and it can be cut between any two of them.

* `Sequence`: one sequence, of one to four bytes
* `isValid_induction`: what holds of the empty text and is kept by putting a sequence in front holds
  of all well-formed texts
* `IsBoundary`: a position at which no sequence is cut
* `isValid_take`, `isValid_drop`: both parts of a well-formed text that is cut at a boundary are
  well-formed
* `isValid_append_cons_iff`: a text may be cut on both sides of a byte that is a sequence alone
-/

namespace RouteTable.Utf8

/-! ## Bytes -/

/-- What holds of the bytes of all numbers below 256 holds of all bytes. -/
theorem forall_byte {p : UInt8 → Prop} (h : ∀ n < 256, p (UInt8.ofNat n)) (b : UInt8) :
    p b := by
  have := h b.toNat b.toNat_lt
  rwa [UInt8.ofNat_toNat] at this

theorem isContinuation_iff (b : UInt8) :
    isContinuation b ↔ 0x80 ≤ b.toNat ∧ b.toNat < 0xC0 := by
  revert b
  exact forall_byte (by decide +kernel)

theorem sequenceLength_eq_one_iff (b : UInt8) : sequenceLength b = 1 ↔ b.toNat < 0x80 := by
  revert b
  exact forall_byte (by decide +kernel)

theorem sequenceLength_eq_two_iff (b : UInt8) :
    sequenceLength b = 2 ↔ 0xC2 ≤ b.toNat ∧ b.toNat < 0xE0 := by
  revert b
  exact forall_byte (by decide +kernel)

theorem sequenceLength_eq_three_iff (b : UInt8) :
    sequenceLength b = 3 ↔ 0xE0 ≤ b.toNat ∧ b.toNat < 0xF0 := by
  revert b
  exact forall_byte (by decide +kernel)

theorem sequenceLength_eq_four_iff (b : UInt8) :
    sequenceLength b = 4 ↔ 0xF0 ≤ b.toNat ∧ b.toNat < 0xF5 := by
  revert b
  exact forall_byte (by decide +kernel)

theorem sequenceLength_le (b : UInt8) : sequenceLength b ≤ 4 := by
  revert b
  exact forall_byte (by decide +kernel)

theorem sequenceLength_of_isContinuation {b : UInt8} : isContinuation b → sequenceLength b = 0 :=
  forall_byte (p := fun b => isContinuation b → sequenceLength b = 0) (by decide +kernel) b

theorem isContinuation_of_allowsSecond {a b : UInt8} (h : allowsSecond a b) : isContinuation b := by
  simp only [allowsSecond, Bool.and_eq_true] at h
  exact h.1.1.1.1

/-! ## Sequences -/

inductive Sequence : Bytes → Prop
  | one {a : UInt8} (ha : sequenceLength a = 1) : Sequence [a]
  | two {a b : UInt8} (ha : sequenceLength a = 2) (hb : isContinuation b) : Sequence [a, b]
  | three {a b c : UInt8} (ha : sequenceLength a = 3) (hb : allowsSecond a b)
      (hc : isContinuation c) : Sequence [a, b, c]
  | four {a b c d : UInt8} (ha : sequenceLength a = 4) (hb : allowsSecond a b)
      (hc : isContinuation c) (hd : isContinuation d) : Sequence [a, b, c, d]

namespace Sequence

variable {q : Bytes}

/-- A sequence begins with a byte that tells its length, and only continuation bytes follow. -/
theorem eq_cons (hq : Sequence q) :
    ∃ a t, q = a :: t ∧ sequenceLength a = q.length ∧ ∀ b ∈ t, isContinuation b := by
  cases hq with
  | one ha => exact ⟨_, _, rfl, ha, by simp⟩
  | two ha hb => exact ⟨_, _, rfl, ha, by simpa using hb⟩
  | three ha hb hc =>
    exact ⟨_, _, rfl, ha, by simpa using ⟨isContinuation_of_allowsSecond hb, hc⟩⟩
  | four ha hb hc hd =>
    exact ⟨_, _, rfl, ha, by simpa using ⟨isContinuation_of_allowsSecond hb, hc, hd⟩⟩

theorem ne_nil (hq : Sequence q) : q ≠ [] := by
  obtain ⟨a, t, rfl, -⟩ := hq.eq_cons
  exact List.cons_ne_nil a t

theorem append_ne_nil (hq : Sequence q) (s : Bytes) : q ++ s ≠ [] :=
  List.append_ne_nil_of_left_ne_nil hq.ne_nil s

theorem isValid_append (hq : Sequence q) (s : Bytes) : isValid (q ++ s) = isValid s := by
  cases hq with
  | one ha => simp [isValid, ha]
  | two ha hb => simp [isValid, ha, hb]
  | three ha hb hc => simp [isValid, ha, hb, hc]
  | four ha hb hc hd => simp [isValid, ha, hb, hc, hd]

theorem isContinuation_of_getElem? (hq : Sequence q) (s : Bytes) {n : Nat} {b : UInt8}
    (h₀ : n ≠ 0) (hn : n < q.length) (h : (q ++ s)[n]? = some b) : isContinuation b := by
  obtain ⟨a, t, rfl, -, ht⟩ := hq.eq_cons
  obtain ⟨n, rfl⟩ := Nat.exists_eq_succ_of_ne_zero h₀
  rw [List.getElem?_append_left hn, List.getElem?_cons_succ] at h
  exact ht b (List.mem_of_getElem? h)

end Sequence

/-! ## Well-formed texts -/

theorem eq_nil_or_sequence {s : Bytes} (h : isValid s) :
    s = [] ∨ ∃ q r, Sequence q ∧ isValid r ∧ s = q ++ r := by
  fun_cases isValid s with
  | case1 => exact Or.inl rfl
  | case2 a rest ha =>
    simp only [isValid, ha] at h
    exact Or.inr ⟨[a], rest, .one ha, h, rfl⟩
  | case3 a b rest ha =>
    simp only [isValid, ha, Bool.and_eq_true] at h
    exact Or.inr ⟨[a, b], rest, .two ha h.1, h.2, rfl⟩
  | case4 a b c rest ha =>
    simp only [isValid, ha, Bool.and_eq_true] at h
    exact Or.inr ⟨[a, b, c], rest, .three ha h.1.1 h.1.2, h.2, rfl⟩
  | case5 a b c d rest ha =>
    simp only [isValid, ha, Bool.and_eq_true] at h
    exact Or.inr ⟨[a, b, c, d], rest, .four ha h.1.1.1 h.1.1.2 h.1.2, h.2, rfl⟩
  | case6 a rest h₁ h₂ h₃ h₄ => simp [isValid] at h

/-- Induction over the sequences of a well-formed text. -/
theorem isValid_induction {motive : (s : Bytes) → isValid s → Prop} (nil : motive [] rfl)
    (append : ∀ q r (hq : Sequence q) (hr : isValid r), motive r hr →
      motive (q ++ r) (by rwa [hq.isValid_append]))
    (s : Bytes) (h : isValid s) : motive s h := by
  rcases eq_nil_or_sequence h with rfl | ⟨q, r, hq, hr, rfl⟩
  · exact nil
  · exact append q r hq hr (isValid_induction nil append r hr)
termination_by s.length
decreasing_by
  have := List.length_pos_iff.2 hq.ne_nil
  rename_i e
  rw [e, List.length_append]
  omega

theorem isValid_append {a : Bytes} (ha : isValid a) (b : Bytes) : isValid (a ++ b) = isValid b := by
  induction a, ha using isValid_induction with
  | nil => rfl
  | append q r hq _ ih => rw [List.append_assoc, hq.isValid_append, ih]

/-! ## Boundaries -/

/-- No sequence is cut at position `n` of a text: it is one of the ends, or its byte continues none.
-/
def IsBoundary (s : Bytes) (n : Nat) : Prop :=
  n = 0 ∨ n = s.length ∨ ∃ b, s[n]? = some b ∧ isContinuation b = false

theorem isValid_take_drop {s : Bytes} (h : isValid s) {n : Nat} (hn : IsBoundary s n) :
    isValid (s.take n) ∧ isValid (s.drop n) := by
  induction s, h using isValid_induction generalizing n with
  | nil => simp [isValid]
  | append q r hq hr ih =>
    by_cases h₀ : n = 0
    · subst h₀
      exact ⟨rfl, by rwa [List.drop_zero, hq.isValid_append]⟩
    by_cases hlt : n < q.length
    · -- The position is within the first sequence, where no boundary is.
      rcases hn with hn | hn | ⟨b, hb, hb'⟩
      · exact absurd hn h₀
      · rw [List.length_append] at hn
        omega
      · rw [hq.isContinuation_of_getElem? r h₀ hlt hb] at hb'
        exact absurd hb' (by decide)
    · have hr' : IsBoundary r (n - q.length) := by
        rcases hn with hn | hn | ⟨b, hb, hb'⟩
        · exact absurd hn h₀
        · rw [List.length_append] at hn
          exact Or.inr (Or.inl (by omega))
        · rw [List.getElem?_append_right (by omega)] at hb
          exact Or.inr (Or.inr ⟨b, hb, hb'⟩)
      obtain ⟨hl, hd⟩ := ih hr'
      rw [List.take_append, List.drop_append, List.take_of_length_le (by omega),
        List.drop_of_length_le (by omega), List.nil_append, hq.isValid_append]
      exact ⟨hl, hd⟩

theorem isValid_take {s : Bytes} (h : isValid s) {n : Nat} (hn : IsBoundary s n) :
    isValid (s.take n) :=
  (isValid_take_drop h hn).1

theorem isValid_drop {s : Bytes} (h : isValid s) {n : Nat} (hn : IsBoundary s n) :
    isValid (s.drop n) :=
  (isValid_take_drop h hn).2

/-- The end of a well-formed part of a text is a boundary if what follows is well-formed, too. -/
theorem isBoundary_length_append {a b : Bytes} (hb : isValid b) : IsBoundary (a ++ b) a.length := by
  rcases eq_nil_or_sequence hb with rfl | ⟨q, r, hq, -, rfl⟩
  · exact Or.inr (Or.inl (by rw [List.append_nil]))
  · obtain ⟨c, t, rfl, hc, -⟩ := hq.eq_cons
    refine Or.inr (Or.inr ⟨c, by simp, Bool.eq_false_iff.2 fun h => ?_⟩)
    rw [sequenceLength_of_isContinuation h] at hc
    exact absurd hc (by simp)

/-- A text may be cut on both sides of a byte that is a sequence alone. -/
theorem isValid_append_cons_iff {b : UInt8} (hb : sequenceLength b = 1) {s t : Bytes} :
    isValid (s ++ b :: t) ↔ isValid s ∧ isValid t := by
  have hcons : isValid (b :: t) = isValid t := (Sequence.one hb).isValid_append t
  constructor
  · intro h
    have hbyte : isContinuation b = false := by
      refine Bool.eq_false_iff.2 fun hc => ?_
      rw [sequenceLength_of_isContinuation hc] at hb
      exact absurd hb (by decide)
    have hbound : IsBoundary (s ++ b :: t) s.length := Or.inr (Or.inr ⟨b, by simp, hbyte⟩)
    have hcut := isValid_take_drop h hbound
    rwa [List.take_left, List.drop_left, hcons] at hcut
  · rintro ⟨hs, ht⟩
    rwa [isValid_append hs, hcons]

end RouteTable.Utf8
