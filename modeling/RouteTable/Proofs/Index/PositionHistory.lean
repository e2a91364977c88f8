import RouteTable.Proofs.Index.PositionSet

/-!
# Sets of positions that are used again

A set of positions is emptied, given another capacity and filled again, any number of times. Its
words and its inline word take turns as the capacity changes, and yet it always holds what a finite
set of numbers holds that goes through the same changes.

* `PositionSet.Change`: what is done to a set
* `Contents`: a finite set of numbers with a capacity, and which changes it allows
* `next?_eq_some_iff`: what a search finds
* `Holds`: a set of positions holds such a set of numbers
* `Holds.applyAll`: it still does after a row of changes
* `Visits`: the search is taken up again behind each position that it finds
* `applyAll_contents`: what a set answers after any row of changes
-/

namespace RouteTable.PositionSet

/-! ## Changes -/

inductive Change where
  | reset (capacity : UInt32)
  | insert (pos : UInt32)
  deriving DecidableEq, Repr

def apply (s : PositionSet) : Change → PositionSet
  | .reset capacity => s.reset capacity
  | .insert pos => s.insert pos

def applyAll (s : PositionSet) (changes : List Change) : PositionSet :=
  changes.foldl apply s

structure Contents where
  capacity : UInt32
  numbers : Finset ℕ := ∅

namespace Contents

def apply (c : Contents) : Change → Contents
  | .reset capacity => { capacity }
  | .insert pos => { c with numbers := Insert.insert pos.toNat c.numbers }

def applyAll (c : Contents) (changes : List Change) : Contents :=
  changes.foldl apply c

/-- Whether a capacity is small enough to count its words in 32-bit arithmetic, and a position is
below the capacity of the moment. -/
def Allows (c : Contents) : Change → Prop
  | .reset capacity => capacity.toNat ≤ 2 ^ 32 - 64
  | .insert pos => pos < c.capacity

def AllowsAll (c : Contents) : List Change → Prop
  | [] => True
  | change :: changes => c.Allows change ∧ (c.apply change).AllowsAll changes

instance (c : Contents) (change : Change) : Decidable (c.Allows change) :=
  match change with
  | .reset capacity => inferInstanceAs (Decidable (capacity.toNat ≤ 2 ^ 32 - 64))
  | .insert pos => inferInstanceAs (Decidable (pos < c.capacity))

instance decidableAllowsAll : (c : Contents) → (changes : List Change) →
    Decidable (c.AllowsAll changes)
  | _, [] => .isTrue trivial
  | c, change :: changes =>
    have := decidableAllowsAll (c.apply change) changes
    inferInstanceAs (Decidable (_ ∧ _))

end Contents

/-! ## Searching -/

section Search

variable {s : PositionSet} (h : s.WellFormed)

include h

theorem next?_eq_some_iff {start pos : UInt32} :
    s.next? start = some pos ↔ IsLeast {n | s.bit n ∧ start.toNat ≤ n} pos.toNat := by
  have hfirst := isFirst_next? h start
  constructor
  · intro he
    rw [he] at hfirst
    obtain ⟨hle, hbit, hlow⟩ := hfirst
    refine ⟨⟨hbit, hle⟩, fun n hn => ?_⟩
    by_contra hlt
    exact Bool.eq_false_iff.1 (hlow n hn.2 (Nat.not_le.1 hlt)) hn.1
  · rintro ⟨⟨hbit, hle⟩, hleast⟩
    cases he : s.next? start with
    | none =>
      rw [he] at hfirst
      exact absurd hbit (Bool.eq_false_iff.1 (hfirst _ hle))
    | some pos' =>
      rw [he] at hfirst
      obtain ⟨hle', hbit', hlow⟩ := hfirst
      have h₁ := hleast ⟨hbit', hle'⟩
      have h₂ : ¬ pos.toNat < pos'.toNat := fun hlt => Bool.eq_false_iff.1 (hlow _ hle hlt) hbit
      rw [UInt32.toNat_inj.1 (Nat.le_antisymm (Nat.not_lt.1 h₂) h₁)]

theorem next?_eq_none_iff {start : UInt32} :
    s.next? start = none ↔ ∀ n, s.bit n → n < start.toNat := by
  have hfirst := isFirst_next? h start
  constructor
  · intro he n hn
    rw [he] at hfirst
    by_contra hlt
    exact Bool.eq_false_iff.1 (hfirst n (Nat.not_lt.1 hlt)) hn
  · intro hn
    cases he : s.next? start with
    | none => rfl
    | some pos =>
      rw [he] at hfirst
      exact absurd (hn _ hfirst.2.1) (Nat.not_lt.2 hfirst.1)

theorem next?_of_contains {pos : UInt32} (hc : s.contains pos) : s.next? pos = some pos := by
  rw [contains_eq h] at hc
  exact (next?_eq_some_iff h).2 ⟨⟨hc, Nat.le_refl _⟩, fun n hn => hn.2⟩

theorem contains_of_next? {start pos : UInt32} (hn : s.next? start = some pos) :
    s.contains pos := by
  rw [contains_eq h]
  exact ((next?_eq_some_iff h).1 hn).1.1

end Search

/-! ## What a set holds -/

structure Holds (s : PositionSet) (c : Contents) : Prop where
  wellFormed : s.WellFormed
  capacity_eq : s.capacity = c.capacity
  bit_iff : ∀ n, s.bit n ↔ n ∈ c.numbers

theorem holds_empty {capacity : UInt32} (h : capacity.toNat ≤ 2 ^ 32 - 64) :
    (empty capacity).Holds { capacity } where
  wellFormed := wellFormed_empty h
  capacity_eq := rfl
  bit_iff n := by simp [bit_empty]

namespace Holds

variable {s : PositionSet} {c : Contents}

/-- Nothing is left of what a set held before it is emptied, whatever its capacities are. -/
theorem apply (h : s.Holds c) {change : Change} (ha : c.Allows change) :
    (s.apply change).Holds (c.apply change) := by
  cases change with
  | reset capacity =>
    show (s.reset capacity).Holds { capacity }
    rw [reset_eq_empty]
    exact holds_empty ha
  | insert pos =>
    have hpos : pos < s.capacity := h.capacity_eq ▸ ha
    refine ⟨wellFormed_insert h.wellFormed hpos, (capacity_insert s pos).trans h.capacity_eq,
      fun n => ?_⟩
    show (s.insert pos).bit n ↔ n ∈ Insert.insert pos.toNat c.numbers
    rw [bit_insert h.wellFormed hpos, Bool.or_eq_true, h.bit_iff, beq_iff_eq,
      Finset.mem_insert, or_comm, eq_comm]

theorem applyAll (h : s.Holds c) {changes : List Change} (ha : c.AllowsAll changes) :
    (s.applyAll changes).Holds (c.applyAll changes) := by
  induction changes generalizing s c with
  | nil => exact h
  | cons change changes ih => exact ih (h.apply ha.1) ha.2

variable (h : s.Holds c)

include h

theorem contains_iff (pos : UInt32) : s.contains pos ↔ pos.toNat ∈ c.numbers := by
  rw [contains_eq h.wellFormed, h.bit_iff]

theorem next?_eq_some_iff {start pos : UInt32} :
    s.next? start = some pos ↔ IsLeast {n | n ∈ c.numbers ∧ start.toNat ≤ n} pos.toNat := by
  simp only [PositionSet.next?_eq_some_iff h.wellFormed, h.bit_iff]

theorem next?_eq_none_iff {start : UInt32} :
    s.next? start = none ↔ ∀ n ∈ c.numbers, n < start.toNat := by
  simp only [PositionSet.next?_eq_none_iff h.wellFormed, h.bit_iff]

theorem isEmpty_iff : s.isEmpty ↔ c.numbers = ∅ := by
  rw [isEmpty, Option.isNone_iff_eq_none, h.next?_eq_none_iff, Finset.eq_empty_iff_forall_notMem]
  exact forall_congr' fun n => ⟨fun hn hm => Nat.not_lt_zero n (hn hm),
    fun hn hm => absurd hm hn⟩

theorem map_toList : s.toList.map (·.toNat) = c.numbers.sort (· ≤ ·) := by
  have hnumbers : c.numbers = ((List.range s.capacity.toNat).filter s.bit).toFinset := by
    ext n
    rw [List.mem_toFinset, List.mem_filter, List.mem_range, h.bit_iff]
    exact ⟨fun hn => ⟨h.wellFormed.lt_capacity n ((h.bit_iff n).2 hn), hn⟩, And.right⟩
  have hsorted : ((List.range s.capacity.toNat).filter s.bit).Pairwise (· ≤ ·) :=
    List.pairwise_le_range.filter _
  rw [toList_eq h.wellFormed, hnumbers]
  exact ((List.toFinset_sort (· ≤ ·) (List.nodup_range.filter _)).2 hsorted).symm

end Holds

/-! ## Going through a set -/

/-- From `start` on, a search that is taken up again behind each position that it finds goes through
the given positions, and then it finds no other. -/
inductive Visits (s : PositionSet) : UInt32 → List UInt32 → Prop
  | done {start : UInt32} (h : s.next? start = none) : Visits s start []
  | step {start pos : UInt32} {l : List UInt32} (h : s.next? start = some pos)
      (rest : Visits s (pos + 1) l) : Visits s start (pos :: l)

theorem Visits.unique {s : PositionSet} {start : UInt32} {l l' : List UInt32} (h : s.Visits start l)
    (h' : s.Visits start l') : l = l' := by
  induction h generalizing l' with
  | done hn =>
    cases h' with
    | done => rfl
    | step hs => exact nomatch hn.symm.trans hs
  | step hs _ ih =>
    cases h' with
    | done hn => exact nomatch hn.symm.trans hs
    | step hs' h' =>
      obtain rfl := Option.some.inj (hs.symm.trans hs')
      rw [ih h']

theorem visits_toListFrom {s : PositionSet} (h : s.WellFormed) (start : UInt32) :
    s.Visits start (s.toListFrom start) := by
  fun_induction s.toListFrom start with
  | case1 start hn => exact .done hn
  | case2 start pos hn hlt ih => exact .step hn ih
  | case3 start pos hn hlt =>
    obtain ⟨⟨hbit, hle⟩, -⟩ := (next?_eq_some_iff h).1 hn
    exact absurd ⟨UInt32.le_iff_toNat_le.2 hle,
      UInt32.lt_iff_toNat_lt.2 (h.lt_capacity _ hbit)⟩ hlt

section Lists

variable {s : PositionSet} (h : s.WellFormed)

include h

theorem toListFrom_of_next? {start pos : UInt32} (hn : s.next? start = some pos) :
    s.toListFrom start = pos :: s.toListFrom (pos + 1) :=
  (visits_toListFrom h start).unique (.step hn (visits_toListFrom h (pos + 1)))

theorem toListFrom_of_next?_eq_none {start : UInt32} (hn : s.next? start = none) :
    s.toListFrom start = [] :=
  (visits_toListFrom h start).unique (.done hn)

theorem mem_toList_iff (pos : UInt32) : pos ∈ s.toList ↔ s.contains pos := by
  rw [← List.mem_map_of_injective fun a b => UInt32.toNat_inj.1, toList_eq h, List.mem_filter,
    List.mem_range, contains_eq h]
  exact ⟨And.right, fun hb => ⟨h.lt_capacity _ hb, hb⟩⟩

theorem pairwise_toList : s.toList.Pairwise (· < ·) := by
  have hlt : (s.toList.map (·.toNat)).Pairwise (· < ·) := by
    rw [toList_eq h]
    exact List.pairwise_lt_range.filter _
  exact (List.pairwise_map.1 hlt).imp UInt32.lt_iff_toNat_lt.2

end Lists

/-! ## Rows of changes -/

/-- After any row of allowed changes a set holds the positions that were inserted since it was
emptied last. The search finds the smallest of them that is not below its start, whatever the start
is, and if it is taken up again behind each position that it finds, it goes once through all of them
in increasing order and ends. -/
theorem applyAll_contents {capacity : UInt32} (hc : capacity.toNat ≤ 2 ^ 32 - 64)
    {changes : List Change} (ha : ({ capacity } : Contents).AllowsAll changes) :
    let s := (empty capacity).applyAll changes
    let numbers := (({ capacity } : Contents).applyAll changes).numbers
    (∀ pos, s.contains pos ↔ pos.toNat ∈ numbers) ∧
    (∀ start pos, s.next? start = some pos ↔
      IsLeast {n | n ∈ numbers ∧ start.toNat ≤ n} pos.toNat) ∧
    (∀ start, s.next? start = none ↔ ∀ n ∈ numbers, n < start.toNat) ∧
    (s.isEmpty ↔ numbers = ∅) ∧
    ∃ l, s.Visits 0 l ∧ (∀ l', s.Visits 0 l' → l' = l) ∧
      l.map (·.toNat) = numbers.sort (· ≤ ·) := by
  intro s numbers
  have h : s.Holds (({ capacity } : Contents).applyAll changes) := (holds_empty hc).applyAll ha
  have hvisits := visits_toListFrom h.wellFormed 0
  exact ⟨h.contains_iff, fun start pos => h.next?_eq_some_iff, fun start => h.next?_eq_none_iff,
    h.isEmpty_iff, s.toList, hvisits, fun l' hl' => hl'.unique hvisits, h.map_toList⟩

/-- A set that takes one word, then two, then one again, with positions at the ends of words. -/
theorem applyAll_contents_regrown :
    let changes := [Change.insert 63, .reset 65, .insert 64, .insert 0, .reset 64, .insert 63,
      .reset 128, .insert 64]
    let s := (empty 64).applyAll changes
    ({ capacity := 64 } : Contents).AllowsAll changes ∧ s.contains 63 = false ∧
      s.contains 64 ∧ s.next? 0 = some 64 ∧ s.next? 65 = none ∧ s.Visits 0 [64] := by
  intro changes s
  have ha : ({ capacity := 64 } : Contents).AllowsAll changes := by decide
  obtain ⟨hcontains, hsome, hnone, -, l, hvisits, -, hl⟩ := applyAll_contents (by decide) ha
  have hnumbers : (({ capacity := 64 } : Contents).applyAll changes).numbers = {64} := rfl
  rw [hnumbers] at hcontains hsome hnone hl
  have hl : l = [64] := by
    have : l.map (·.toNat) = [(64 : UInt32)].map (·.toNat) := by
      rw [hl, Finset.sort_singleton]
      rfl
    exact List.map_injective_iff.2 (fun a b => UInt32.toNat_inj.1) this
  refine ⟨ha, ?_, (hcontains 64).2 (by decide), (hsome 0 64).2 ?_, (hnone 65).2 (by decide),
    hl ▸ hvisits⟩
  · rw [← Bool.not_eq_true, hcontains]
    decide
  · refine ⟨⟨by decide, by decide⟩, fun n hn => ?_⟩
    rw [Finset.mem_singleton.1 hn.1]
    decide

end RouteTable.PositionSet
