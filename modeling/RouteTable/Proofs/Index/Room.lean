import RouteTable.Proofs.Index.PositionSet

/-!
# Room for positions

The number of words that a capacity takes is rounded up in 32-bit arithmetic. For the 63 greatest
capacities this wraps around, so that their sets have the inline word only, and positions share its
bits. For all others each position has a bit of its own, and a search ends within the words.

* `toNat_le_wordCount_reset_iff`: which capacities the words have room for
* `Filled`: the sets of a capacity
* `contains_insert_of_ne`, `contains_insert_of_isEmpty_words`: which positions an insertion adds, if
  all have a bit of their own and if they share those of the inline word
* `Search.Within.turn`: a turn stays within the words
* `Search.exists_iterate_turn_eq`: the turns end with the answer of `next?`
* `room_iff`: what depends on the capacity, and on nothing else
-/

namespace RouteTable.PositionSet

variable {s : PositionSet} {capacity : UInt32}

/-! ## Capacities -/

theorem separateWords_eq_zero (h : 2 ^ 32 - 64 < capacity.toNat) : separateWords capacity = 0 := by
  have hlt := capacity.toNat_lt
  rw [separateWords]
  split
  · rw [UInt32.toNat_div, UInt32.toNat_add]
    show (capacity.toNat + 63) % 2 ^ 32 / 64 = 0
    omega
  · rfl

theorem isEmpty_words_empty (h : 2 ^ 32 - 64 < capacity.toNat) :
    (empty capacity).words.isEmpty := by
  rw [Array.isEmpty_iff_size_eq_zero, empty, Array.size_replicate, separateWords_eq_zero h]

theorem toNat_le_wordCount_reset_iff (s : PositionSet) (capacity : UInt32) :
    capacity.toNat ≤ 64 * (s.reset capacity).wordCount ↔ capacity.toNat ≤ 2 ^ 32 - 64 := by
  rw [reset_eq_empty]
  constructor
  · intro hroom
    by_contra h
    rw [wordCount, if_pos (isEmpty_words_empty (Nat.not_le.1 h))] at hroom
    omega
  · exact fun h => capacity_le_wordCount (wellFormed_empty h)

/-! ## Sets of a capacity -/

/-- The set was given the capacity, whatever it was before, and since then positions below the
capacity were inserted. -/
inductive Filled (capacity : UInt32) : PositionSet → Prop
  | reset (s : PositionSet) : Filled capacity (s.reset capacity)
  | insert {s : PositionSet} {pos : UInt32} (h : Filled capacity s) (hpos : pos < capacity) :
      Filled capacity (s.insert pos)

theorem filled_empty (capacity : UInt32) : Filled capacity (empty capacity) :=
  reset_eq_empty (empty capacity) capacity ▸ .reset _

theorem Filled.capacity_eq (h : Filled capacity s) : s.capacity = capacity := by
  induction h with
  | reset => rfl
  | insert _ _ ih => rw [capacity_insert, ih]

theorem Filled.wellFormed (h : Filled capacity s) (hc : capacity.toNat ≤ 2 ^ 32 - 64) :
    s.WellFormed := by
  induction h with
  | reset s =>
    rw [reset_eq_empty]
    exact wellFormed_empty hc
  | insert h hpos ih => exact wellFormed_insert ih (h.capacity_eq.symm ▸ hpos)

/-! ## Insertions -/

theorem contains_empty (capacity pos : UInt32) : (empty capacity).contains pos = false := by
  rw [contains, word_empty, UInt64.zero_and, bne_self_eq_false, Bool.and_false]

theorem contains_insert_of_ne (h : s.WellFormed) {p q : UInt32} (hp : p < s.capacity)
    (hne : p ≠ q) : (s.insert p).contains q = s.contains q := by
  rw [contains_eq (wellFormed_insert h hp), contains_eq h, bit_insert h hp,
    beq_eq_false_iff_ne.2 fun he => hne (UInt32.toNat_inj.1 he), Bool.or_false]

/-- With the inline word alone, an insertion adds all positions with the same remainder. -/
theorem contains_insert_of_isEmpty_words (h : s.words.isEmpty) (p q : UInt32) :
    (s.insert p).contains q =
      (s.contains q || decide (q < s.capacity ∧ p.toNat % 64 = q.toNat % 64)) := by
  rw [insert, if_pos h, contains, contains, word, word, if_pos h, if_pos h, Bool.eq_iff_iff]
  simp only [Bool.and_eq_true, Bool.or_eq_true, decide_eq_true_iff, bne_iff_ne, ne_eq,
    and_bitOf_eq_zero_iff, testBit_or_bitOf, Bool.not_eq_false]
  exact and_or_left

/-! ## Searches -/

namespace Search

def Within (s : PositionSet) : Search → Prop
  | going i _ => i.toNat < s.wordCount
  | done _ => True
  | outside => False

/-- The inline word is word number 0, and there is no other. -/
theorem start_of_isEmpty_words (h : s.words.isEmpty) {pos : UInt32} (hpos : pos < s.capacity)
    (hword : 64 ≤ pos.toNat) : start s pos = outside := by
  rw [start, if_pos hpos, word?, wordCount, if_pos h, if_neg, Option.elim_none]
  rw [UInt32.toNat_div]
  show ¬ pos.toNat / 64 < 1
  omega

variable {i : UInt32} {search : Search} (h : s.WellFormed)

include h

theorem toNat_add_one (hi : i.toNat < s.wordCount) : (i + 1).toNat = i.toNat + 1 := by
  have hle := h.capacity_le
  rw [wordCount_eq h] at hi
  rw [UInt32.toNat_add, UInt32.toNat_one]
  exact Nat.mod_eq_of_lt (by omega)

theorem start_of_lt {pos : UInt32} (hpos : pos < s.capacity) : start s pos =
    going (pos / 64) (s.word (wordOf pos) &&& (0 - 1) <<< (pos % 64).toUInt64) := by
  have hword : (pos / 64).toNat = wordOf pos := UInt32.toNat_div pos 64
  rw [start, if_pos hpos, word?, hword, if_pos (wordOf_lt_wordCount h hpos), Option.elim_some]

/-- Behind a word that is not the last one there is another. -/
theorem turn_going_zero (hi : i.toNat < s.wordCount) : turn s (going i 0) =
    if i.toNat + 1 < s.wordCount then going (i + 1) (s.word (i.toNat + 1)) else done none := by
  rw [turn, if_pos rfl, word?, toNat_add_one h hi]
  by_cases hlast : i.toNat + 1 = s.wordCount
  · rw [if_pos hlast, if_neg (by omega)]
  · have hlt : i.toNat + 1 < s.wordCount := by omega
    rw [if_neg hlast, if_pos hlt, if_pos hlt, Option.elim_some]

theorem within_start (pos : UInt32) : (start s pos).Within s := by
  by_cases hpos : pos < s.capacity
  · rw [start_of_lt h hpos]
    show (pos / 64).toNat < _
    rw [UInt32.toNat_div]
    exact wordOf_lt_wordCount h hpos
  · rw [start, if_neg hpos]
    trivial

theorem Within.turn (hw : search.Within s) : (search.turn s).Within s := by
  cases search with
  | going i bits =>
    by_cases hbits : bits = 0
    · rw [hbits, turn_going_zero h hw]
      split
      · next hlt => exact (toNat_add_one h hw).trans_lt hlt
      · trivial
    · rw [Search.turn, if_neg hbits]
      trivial
  | done => exact hw
  | outside => exact hw

theorem Within.iterate_turn (hw : search.Within s) (n : Nat) :
    ((Search.turn s)^[n] search).Within s := by
  induction n generalizing search with
  | zero => exact hw
  | succ n ih => exact ih (Within.turn h hw)

/-- The turns find the first of the bits that are left, or what a scan of the words behind finds. -/
theorem exists_iterate_turn_going (bits : UInt64) (hi : i.toNat < s.wordCount) :
    ∃ n ≤ s.wordCount - i.toNat, (turn s)^[n] (going i bits) =
      done (if bits = 0 then s.scan (i.toNat + 1) else position? i.toNat bits) := by
  generalize hleft : s.wordCount - i.toNat = left
  induction left generalizing i bits with
  | zero => omega
  | succ left ih =>
    by_cases hbits : bits = 0
    · rw [if_pos hbits, hbits, scan]
      by_cases hlt : i.toNat + 1 < s.wordCount
      · have hi' := toNat_add_one h hi
        obtain ⟨n, hn, hrun⟩ := ih (i := i + 1) (s.word (i.toNat + 1)) (by omega) (by omega)
        refine ⟨n + 1, by omega, ?_⟩
        rw [Function.iterate_succ_apply, turn_going_zero h hi, if_pos hlt, if_pos hlt, hrun, hi']
      · refine ⟨1, by omega, ?_⟩
        rw [Function.iterate_one, turn_going_zero h hi, if_neg hlt, if_neg hlt]
    · refine ⟨1, by omega, ?_⟩
      rw [Function.iterate_one, turn, if_neg hbits, if_neg hbits]

/-- The turns end with the answer of `next?`, after at most one for each word. -/
theorem exists_iterate_turn_eq (pos : UInt32) :
    ∃ n ≤ s.wordCount, (turn s)^[n] (start s pos) = done (s.next? pos) := by
  by_cases hpos : pos < s.capacity
  · have hword : (pos / 64).toNat = wordOf pos := UInt32.toNat_div pos 64
    have hlt := wordOf_lt_wordCount h hpos
    obtain ⟨n, hn, hrun⟩ := exists_iterate_turn_going h
      (s.word (wordOf pos) &&& (0 - 1) <<< (pos % 64).toUInt64) (hword.trans_lt hlt)
    refine ⟨n, hn.trans (Nat.sub_le _ _), ?_⟩
    rw [start_of_lt h hpos, hrun, hword, next?, if_pos hpos, ← scanAfter_eq_scan hlt]
  · refine ⟨0, Nat.zero_le _, ?_⟩
    rw [Function.iterate_zero_apply, start, if_neg hpos, next?, if_neg hpos]

end Search

/-! ## What depends on the capacity -/

/-- The words that a set is given when it is emptied have room for its capacity if and only if this
is at most `2 ^ 32 - 64`. For these capacities, and only for them, inserting a position changes
nothing else in a set, and a search stays within the words of the set; it then ends with the answer
of `next?`, after at most one turn for each word. -/
theorem room_iff (capacity : UInt32) :
    ((∀ s : PositionSet, capacity.toNat ≤ 64 * (s.reset capacity).wordCount) ↔
      capacity.toNat ≤ 2 ^ 32 - 64) ∧
    ((∀ s p q, Filled capacity s → p < capacity → q < capacity → p ≠ q →
      (s.insert p).contains q = s.contains q) ↔ capacity.toNat ≤ 2 ^ 32 - 64) ∧
    ((∀ s pos n, Filled capacity s → (Search.turn s)^[n] (Search.start s pos) ≠ .outside) ↔
      capacity.toNat ≤ 2 ^ 32 - 64) ∧
    (capacity.toNat ≤ 2 ^ 32 - 64 → ∀ s pos, Filled capacity s →
      ∃ n ≤ s.wordCount, (Search.turn s)^[n] (Search.start s pos) = .done (s.next? pos)) := by
  -- Above that, position 64 shares its bit with position 0, and its word is not there.
  have hlarge : ¬ capacity.toNat ≤ 2 ^ 32 - 64 → 0 < capacity ∧ 64 < capacity ∧
      (empty capacity).words.isEmpty := by
    intro h
    simp only [UInt32.lt_iff_toNat_lt, UInt32.reduceToNat]
    exact ⟨by omega, by omega, isEmpty_words_empty (Nat.not_le.1 h)⟩
  refine ⟨⟨fun hroom => ?_, fun hc s => ?_⟩,
    ⟨fun hkept => ?_, fun hc s p q hs hp _ hne => ?_⟩,
    ⟨fun hinside => ?_, fun hc s pos n hs houtside => ?_⟩, fun hc s pos hs => ?_⟩
  · exact (toNat_le_wordCount_reset_iff _ _).1 (hroom (empty capacity))
  · exact (toNat_le_wordCount_reset_iff s capacity).2 hc
  · by_contra hc
    obtain ⟨h₀, h₆₄, hempty⟩ := hlarge hc
    have hshared := hkept _ 0 64 (filled_empty capacity) h₀ h₆₄ (by decide)
    rw [contains_insert_of_isEmpty_words hempty, contains_empty, Bool.false_or] at hshared
    exact of_decide_eq_false hshared ⟨h₆₄, rfl⟩
  · exact contains_insert_of_ne (hs.wellFormed hc) (hs.capacity_eq.symm ▸ hp) hne
  · by_contra hc
    obtain ⟨-, h₆₄, hempty⟩ := hlarge hc
    exact hinside _ 64 0 (filled_empty capacity)
      (Search.start_of_isEmpty_words hempty h₆₄ (Nat.le_refl 64))
  · have hwithin := (Search.within_start (hs.wellFormed hc) pos).iterate_turn (hs.wellFormed hc) n
    rwa [houtside] at hwithin
  · exact Search.exists_iterate_turn_eq (hs.wellFormed hc) pos

/-- The greatest capacity has the inline word only. Inserting position 0 adds position 64, too, and
a search from there on asks for a second word. -/
theorem no_room_for_greatest_capacity :
    ¬ (empty 0xFFFFFFFF).capacity.toNat ≤ 64 * (empty 0xFFFFFFFF).wordCount ∧
      ((empty 0xFFFFFFFF).insert 0).contains 64 ≠ (empty 0xFFFFFFFF).contains 64 ∧
      Search.start (empty 0xFFFFFFFF) 64 = .outside := by
  decide

end RouteTable.PositionSet
