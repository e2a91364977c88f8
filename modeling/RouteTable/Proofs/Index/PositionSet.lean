import Mathlib
import RouteTable.Index.PositionSet

/-!
# What a set of positions holds

A set of positions is read as one bit for each number. The bits are those of the words, wherever
these are kept.

* `PositionSet.bit`: whether a number is in the set
* `WellFormed`: the words are as many as the capacity takes, and no bit from the capacity on is set
* `bit_insert`: what an insertion changes
* `isFirst_next?`: the search finds the first bit from a position on
* `toList_eq`: the positions in increasing order are the numbers below the capacity whose bit is set
* `foldl_insert_congr`: of many insertions it only matters which positions are inserted
-/

namespace RouteTable.PositionSet

def bit (s : PositionSet) (n : Nat) : Bool :=
  n < 64 * s.wordCount && (s.word (n / 64)).toNat.testBit (n % 64)

/-- A set as it comes from `empty`, `reset` and `insert`, with a capacity for which the words can be
counted in 32-bit arithmetic. -/
structure WellFormed (s : PositionSet) : Prop where
  capacity_le : s.capacity.toNat ≤ 2 ^ 32 - 64
  size_words : s.words.size = separateWords s.capacity
  lt_capacity : ∀ n, s.bit n → n < s.capacity.toNat

/-! ## Words -/

theorem separateWords_eq {c : UInt32} (h : c.toNat ≤ 2 ^ 32 - 64) :
    separateWords c = if 64 < c.toNat then (c.toNat + 63) / 64 else 0 := by
  have hlt : 64 < c ↔ 64 < c.toNat := UInt32.lt_iff_toNat_lt
  rw [separateWords, if_congr hlt rfl rfl]
  split
  · rw [UInt32.toNat_div, UInt32.toNat_add]
    show (c.toNat + 63) % 2 ^ 32 / 64 = _
    rw [Nat.mod_eq_of_lt (by omega)]
  · rfl

theorem isEmpty_words_iff {s : PositionSet} (h : s.WellFormed) :
    s.words.isEmpty ↔ s.capacity.toNat ≤ 64 := by
  rw [Array.isEmpty_iff_size_eq_zero, h.size_words, separateWords_eq h.capacity_le]
  split <;> omega

theorem wordCount_eq {s : PositionSet} (h : s.WellFormed) :
    s.wordCount = max 1 ((s.capacity.toNat + 63) / 64) := by
  rw [wordCount, if_congr (isEmpty_words_iff h) rfl rfl, h.size_words,
    separateWords_eq h.capacity_le]
  split
  · omega
  · rw [if_pos (by omega)]
    omega

theorem capacity_le_wordCount {s : PositionSet} (h : s.WellFormed) :
    s.capacity.toNat ≤ 64 * s.wordCount := by
  rw [wordCount_eq h]
  omega

theorem wordOf_lt_wordCount {s : PositionSet} (h : s.WellFormed) {pos : UInt32}
    (hpos : pos < s.capacity) : wordOf pos < s.wordCount := by
  have hc := capacity_le_wordCount h
  rw [UInt32.lt_iff_toNat_lt] at hpos
  rw [wordOf]
  omega

theorem toNat_bitOf (pos : UInt32) : (bitOf pos).toNat = 2 ^ (pos.toNat % 64) := by
  have hlt : pos.toNat % 64 < 64 := Nat.mod_lt _ (by decide)
  rw [bitOf, UInt64.toNat_shiftLeft, UInt32.toNat_toUInt64, UInt32.toNat_mod]
  show 1 <<< (pos.toNat % 64 % 64) % 2 ^ 64 = _
  rw [Nat.mod_eq_of_lt hlt, Nat.one_shiftLeft,
    Nat.mod_eq_of_lt (Nat.pow_lt_pow_right (by decide) hlt)]

theorem testBit_or_bitOf (w : UInt64) (pos : UInt32) (j : Nat) :
    (w ||| bitOf pos).toNat.testBit j = (w.toNat.testBit j || decide (pos.toNat % 64 = j)) := by
  rw [UInt64.toNat_or, Nat.testBit_or, toNat_bitOf, Nat.testBit_two_pow]

theorem word_eq_zero_iff (w : UInt64) : w = 0 ↔ ∀ j < 64, w.toNat.testBit j = false := by
  constructor
  · rintro rfl j -
    exact Nat.zero_testBit j
  · intro h
    rw [← UInt64.toNat_inj]
    apply Nat.eq_of_testBit_eq
    intro j
    rw [UInt64.toNat_zero, Nat.zero_testBit]
    by_cases hj : j < 64
    · exact h j hj
    · exact Nat.testBit_lt_two_pow
        (w.toNat_lt.trans_le (Nat.pow_le_pow_right (by decide) (Nat.not_lt.1 hj)))

theorem and_bitOf_eq_zero_iff (w : UInt64) (pos : UInt32) :
    w &&& bitOf pos = 0 ↔ w.toNat.testBit (pos.toNat % 64) = false := by
  simp only [word_eq_zero_iff, UInt64.toNat_and, toNat_bitOf, Nat.testBit_and, Nat.testBit_two_pow,
    Bool.and_eq_false_iff, decide_eq_false_iff_not]
  constructor
  · intro h
    exact (h _ (Nat.mod_lt _ (by decide))).resolve_right (not_not_intro rfl)
  · intro h j _
    by_cases hj : pos.toNat % 64 = j
    · exact Or.inl (hj ▸ h)
    · exact Or.inr hj

/-- The word that keeps the bits from the bit of a position on. -/
theorem testBit_mask (pos : UInt32) {j : Nat} (hj : j < 64) :
    (((0 : UInt64) - 1) <<< (pos % 64).toUInt64).toNat.testBit j =
      decide (pos.toNat % 64 ≤ j) := by
  rw [UInt64.toNat_shiftLeft, UInt32.toNat_toUInt64, UInt32.toNat_mod]
  show ((2 ^ 64 - 1) <<< (pos.toNat % 64 % 64) % 2 ^ 64).testBit j = _
  rw [Nat.mod_mod, Nat.testBit_mod_two_pow, Nat.testBit_shiftLeft, Nat.testBit_two_pow_sub_one]
  simp only [hj, decide_true, Bool.true_and, ge_iff_le]
  rw [decide_eq_true (show j - pos.toNat % 64 < 64 by omega), Bool.and_true]

/-! ## Bits -/

theorem bit_eq_word {s : PositionSet} {i j : Nat} (hi : i < s.wordCount) (hj : j < 64) :
    s.bit (64 * i + j) = (s.word i).toNat.testBit j := by
  rw [bit, show (64 * i + j) / 64 = i by omega, show (64 * i + j) % 64 = j by omega,
    decide_eq_true (by omega), Bool.true_and]

theorem contains_eq {s : PositionSet} (h : s.WellFormed) (pos : UInt32) :
    s.contains pos = s.bit pos.toNat := by
  have hc := capacity_le_wordCount h
  rw [contains, Bool.eq_iff_iff, Bool.and_eq_true, bne_iff_ne, ne_eq, and_bitOf_eq_zero_iff,
    Bool.not_eq_false, decide_eq_true_iff, UInt32.lt_iff_toNat_lt]
  constructor
  · intro h
    obtain ⟨hlt, hb⟩ := h
    rw [bit, decide_eq_true (by omega), Bool.true_and]
    exact hb
  · intro hb
    refine ⟨h.lt_capacity _ hb, ?_⟩
    rw [bit, Bool.and_eq_true] at hb
    exact hb.2

/-! ## Empty sets -/

theorem reset_eq_empty (s : PositionSet) (capacity : UInt32) :
    s.reset capacity = empty capacity := by
  rw [reset, empty]
  congr 1
  split
  · next h =>
    rw [← h]
    apply Array.ext <;> simp
  · rfl

theorem word_empty (c : UInt32) (i : Nat) : (empty c).word i = 0 := by
  rw [word]
  split
  · rfl
  · simp only [empty, Array.getD_eq_getD_getElem?, Array.getElem?_replicate]
    split <;> rfl

theorem bit_empty (c : UInt32) (n : Nat) : (empty c).bit n = false := by
  rw [bit, word_empty, UInt64.toNat_zero, Nat.zero_testBit, Bool.and_false]

theorem wellFormed_empty {c : UInt32} (h : c.toNat ≤ 2 ^ 32 - 64) : (empty c).WellFormed where
  capacity_le := h
  size_words := Array.size_replicate
  lt_capacity n hn := by
    rw [bit_empty] at hn
    exact absurd hn Bool.false_ne_true

/-! ## Insertions -/

theorem capacity_insert (s : PositionSet) (pos : UInt32) :
    (s.insert pos).capacity = s.capacity := by
  rw [insert]
  split <;> rfl

theorem size_words_insert (s : PositionSet) (pos : UInt32) :
    (s.insert pos).words.size = s.words.size := by
  rw [insert]
  split
  · rfl
  · exact Array.size_modify

theorem isEmpty_words_insert (s : PositionSet) (pos : UInt32) :
    (s.insert pos).words.isEmpty = s.words.isEmpty := by
  rw [Bool.eq_iff_iff, Array.isEmpty_iff_size_eq_zero, Array.isEmpty_iff_size_eq_zero,
    size_words_insert]

theorem wordCount_insert (s : PositionSet) (pos : UInt32) :
    (s.insert pos).wordCount = s.wordCount := by
  rw [wordCount, wordCount, isEmpty_words_insert, size_words_insert]

theorem word_insert {s : PositionSet} {pos : UInt32} {i : Nat} (hi : i < s.wordCount)
    (hp : pos.toNat < 64 * s.wordCount) :
    (s.insert pos).word i = if wordOf pos = i then s.word i ||| bitOf pos else s.word i := by
  by_cases he : s.words.isEmpty
  · rw [wordCount, if_pos he] at hi hp
    rw [insert, if_pos he, word, word, if_pos he, if_pos he, if_pos (by rw [wordOf]; omega)]
  · rw [wordCount, if_neg he] at hi hp
    have he' : (s.words.modify (wordOf pos) (· ||| bitOf pos)).isEmpty = false := by
      rw [← Bool.not_eq_true, Array.isEmpty_iff_size_eq_zero, Array.size_modify]
      omega
    rw [insert, if_neg he, word, word, if_neg he, if_neg (by rw [he']; decide),
      Array.getD_eq_getD_getElem?, Array.getD_eq_getD_getElem?, Array.getElem?_modify]
    by_cases hw : wordOf pos = i
    · rw [if_pos hw, if_pos hw, Array.getElem?_eq_getElem hi]
      rfl
    · rw [if_neg hw, if_neg hw]

/-- An insertion adds the position and changes nothing else. -/
theorem bit_insert {s : PositionSet} (h : s.WellFormed) {pos : UInt32} (hp : pos < s.capacity)
    (n : Nat) : (s.insert pos).bit n = (s.bit n || pos.toNat == n) := by
  have hc := capacity_le_wordCount h
  have hp' : pos.toNat < 64 * s.wordCount := (UInt32.lt_iff_toNat_lt.1 hp).trans_le hc
  rw [bit, bit, wordCount_insert]
  by_cases hn : n < 64 * s.wordCount
  · rw [word_insert (by omega) hp', decide_eq_true hn, Bool.true_and, Bool.true_and, wordOf]
    split
    · next hw =>
      rw [testBit_or_bitOf, Bool.beq_eq_decide_eq]
      congr 1
      exact decide_eq_decide.2 (by omega)
    · next hw =>
      rw [beq_eq_false_iff_ne.2 (by rintro rfl; exact hw rfl), Bool.or_false]
  · rw [decide_eq_false hn, Bool.false_and, Bool.false_and, Bool.false_or,
      beq_eq_false_iff_ne.2 (by omega)]

theorem wellFormed_insert {s : PositionSet} (h : s.WellFormed) {pos : UInt32}
    (hp : pos < s.capacity) : (s.insert pos).WellFormed where
  capacity_le := by rw [capacity_insert]; exact h.capacity_le
  size_words := by rw [size_words_insert, capacity_insert]; exact h.size_words
  lt_capacity n hn := by
    rw [bit_insert h hp, Bool.or_eq_true, beq_iff_eq] at hn
    rw [capacity_insert]
    rcases hn with hn | rfl
    · exact h.lt_capacity n hn
    · exact UInt32.lt_iff_toNat_lt.1 hp

theorem modify_or_comm (a : Array UInt64) (i j : Nat) (v w : UInt64) :
    (a.modify i (· ||| v)).modify j (· ||| w) = (a.modify j (· ||| w)).modify i (· ||| v) := by
  apply Array.ext_getElem?
  intro k
  simp only [Array.getElem?_modify]
  by_cases hi : i = k
  · by_cases hj : j = k
    · simp only [hi, hj, if_true, Option.map_map]
      congr 1
      funext x
      show x ||| v ||| w = x ||| w ||| v
      rw [UInt64.or_assoc, UInt64.or_comm v, ← UInt64.or_assoc]
    · rw [if_pos hi, if_neg hj, if_neg hj, if_pos hi]
  · rw [if_neg hi, if_neg hi]

theorem insert_comm (s : PositionSet) (p q : UInt32) :
    (s.insert p).insert q = (s.insert q).insert p := by
  have hp := isEmpty_words_insert s p
  have hq := isEmpty_words_insert s q
  by_cases he : s.words.isEmpty
  · simp only [insert, he, if_true]
    rw [UInt64.or_assoc, UInt64.or_comm (bitOf p), ← UInt64.or_assoc]
  · rw [insert, insert.eq_def (s.insert q), hp, hq, if_neg he, if_neg he, insert,
      insert, if_neg he, if_neg he]
    simp only [modify_or_comm s.words (wordOf p)]

theorem modify_or_self (a : Array UInt64) (i : Nat) (v : UInt64) :
    (a.modify i (· ||| v)).modify i (· ||| v) = a.modify i (· ||| v) := by
  apply Array.ext_getElem?
  intro k
  simp only [Array.getElem?_modify]
  by_cases hi : i = k
  · rw [if_pos hi, if_pos hi, Option.map_map]
    congr 1
    funext x
    show x ||| v ||| v = x ||| v
    rw [UInt64.or_assoc, UInt64.or_self]
  · rw [if_neg hi, if_neg hi]

theorem insert_insert_self (s : PositionSet) (p : UInt32) : (s.insert p).insert p = s.insert p := by
  have hp := isEmpty_words_insert s p
  by_cases he : s.words.isEmpty
  · simp only [insert, he, if_true]
    rw [UInt64.or_assoc, UInt64.or_self]
  · rw [insert.eq_def (s.insert p), hp, if_neg he, insert, if_neg he]
    simp only [modify_or_self]

/-! ## Search -/

/-- The answer to the search for the first number from `a` on. -/
def IsFirst (s : PositionSet) (a : Nat) : Option UInt32 → Prop
  | none => ∀ n, a ≤ n → s.bit n = false
  | some pos => a ≤ pos.toNat ∧ s.bit pos.toNat ∧ ∀ n, a ≤ n → n < pos.toNat →
    s.bit n = false

/-- If nothing lies between two places, then the search from both has the same answer. -/
theorem IsFirst.mono {s : PositionSet} {a b : Nat} {o : Option UInt32} (h : s.IsFirst b o)
    (hab : a ≤ b) (hgap : ∀ n, a ≤ n → n < b → s.bit n = false) : s.IsFirst a o := by
  have hlow : ∀ {n}, a ≤ n → (b ≤ n → s.bit n = false) → s.bit n = false := by
    intro n ha hb
    by_cases hn : n < b
    · exact hgap n ha hn
    · exact hb (Nat.not_lt.1 hn)
  cases o with
  | none =>
    intro n hn
    exact hlow hn (h n)
  | some pos =>
    refine ⟨hab.trans h.1, h.2.1, ?_⟩
    intro n hn hlt
    exact hlow hn fun hb => h.2.2 n hb hlt

theorem lowestBit_spec {w : UInt64} (h : w ≠ 0) :
    lowestBit w < 64 ∧ w.toNat.testBit (lowestBit w) ∧
      ∀ j < lowestBit w, w.toNat.testBit j = false := by
  cases hf : (List.range 64).find? (w.toNat.testBit ·) with
  | none =>
    rw [List.find?_range_eq_none] at hf
    refine absurd ((word_eq_zero_iff w).2 ?_) h
    intro j hj
    simpa using hf j hj
  | some j =>
    rw [lowestBit, hf]
    obtain ⟨hj, hmem, hlow⟩ := List.find?_range_eq_some.1 hf
    refine ⟨List.mem_range.1 hmem, hj, ?_⟩
    intro k hk
    simpa using hlow k hk

/-- The word `w` with bits of word number `i` gives its first position, if all bits of that word
from `a` on are bits of `w`, and no others. -/
theorem isFirst_position? {s : PositionSet} (h : s.WellFormed) {a i : Nat} {w : UInt64}
    (hw : w ≠ 0) (ha : 64 * i ≤ a)
    (hbit : ∀ j < 64, w.toNat.testBit j = (decide (a ≤ 64 * i + j) && s.bit (64 * i + j))) :
    s.IsFirst a (position? i w) := by
  obtain ⟨hlt, htest, hlow⟩ := lowestBit_spec hw
  rw [hbit _ hlt, Bool.and_eq_true, decide_eq_true_iff] at htest
  have hcap := h.lt_capacity _ htest.2
  have hle := h.capacity_le
  have hnat : (UInt32.ofNat (64 * i + lowestBit w)).toNat = 64 * i + lowestBit w :=
    UInt32.toNat_ofNat_of_lt' (by show _ < 2 ^ 32; omega)
  have hne : UInt32.ofNat (64 * i + lowestBit w) ≠ 0xFFFFFFFF := by
    intro he
    have := congrArg UInt32.toNat he
    rw [hnat] at this
    have hmax : (0xFFFFFFFF : UInt32).toNat = 2 ^ 32 - 1 := rfl
    omega
  rw [position?, if_neg hne]
  rw [IsFirst, hnat]
  refine ⟨htest.1, htest.2, ?_⟩
  intro n hn hlt'
  have hj := hlow (n - 64 * i) (by omega)
  rw [hbit _ (by omega), show 64 * i + (n - 64 * i) = n by omega, decide_eq_true hn,
    Bool.true_and] at hj
  exact hj

theorem bit_eq_false_of_word_eq_zero {s : PositionSet} {i n : Nat} (hi : i < s.wordCount)
    (hw : s.word i = 0) (h₁ : 64 * i ≤ n) (h₂ : n < 64 * (i + 1)) : s.bit n = false := by
  have hb := bit_eq_word hi (show n - 64 * i < 64 by omega)
  rw [show 64 * i + (n - 64 * i) = n by omega] at hb
  rw [hb, hw, UInt64.toNat_zero, Nat.zero_testBit]

theorem isFirst_scan {s : PositionSet} (h : s.WellFormed) (i : Nat) :
    s.IsFirst (64 * i) (s.scan i) := by
  fun_induction s.scan i with
  | case1 i hi hw ih =>
    apply ih.mono (by omega)
    intro n h₁ h₂
    exact bit_eq_false_of_word_eq_zero hi hw h₁ h₂
  | case2 i hi hw =>
    apply isFirst_position? h hw (Nat.le_refl _)
    intro j hj
    rw [bit_eq_word hi hj, decide_eq_true (Nat.le_add_right _ _), Bool.true_and]
  | case3 i hi =>
    intro n hn
    rw [bit, decide_eq_false (by omega), Bool.false_and]

/-- Behind one of its words a set is searched word by word, the inline word being the last one. -/
theorem scanAfter_eq_scan {s : PositionSet} {i : Nat} (hi : i < s.wordCount) :
    s.scanAfter i = s.scan (i + 1) := by
  rw [scanAfter]
  by_cases he : s.words.isEmpty
  · rw [wordCount, if_pos he] at hi
    rw [if_pos he, if_pos (Or.inl (by omega)), scan, if_neg (by rw [wordCount, if_pos he]; omega)]
  · rw [if_neg he]

theorem isFirst_next? {s : PositionSet} (h : s.WellFormed) (start : UInt32) :
    s.IsFirst start.toNat (s.next? start) := by
  rw [next?]
  split
  · next hlt =>
    have hi := wordOf_lt_wordCount h hlt
    have hmask : ∀ j < 64,
        (s.word (wordOf start) &&& ((0 - 1) <<< (start % 64).toUInt64)).toNat.testBit j =
          (decide (start.toNat ≤ 64 * wordOf start + j) && s.bit (64 * wordOf start + j)) := by
      intro j hj
      rw [UInt64.toNat_and, Nat.testBit_and, testBit_mask start hj, bit_eq_word hi hj,
        Bool.and_comm, wordOf]
      congr 1
      exact decide_eq_decide.2 (by omega)
    dsimp only
    split
    · next hw =>
      -- No position of the first word is left, and the search goes on in the words after it.
      rw [scanAfter_eq_scan hi]
      apply (isFirst_scan h _).mono (by rw [wordOf]; omega)
      intro n h₁ h₂
      have hz := (word_eq_zero_iff _).1 hw (n - 64 * wordOf start)
        (by rw [wordOf] at h₂ ⊢; omega)
      rw [hmask _ (by rw [wordOf] at h₂ ⊢; omega),
        show 64 * wordOf start + (n - 64 * wordOf start) = n by rw [wordOf]; omega,
        decide_eq_true h₁, Bool.true_and] at hz
      exact hz
    · next hw => exact isFirst_position? h hw (by rw [wordOf]; omega) hmask
  · next hlt =>
    intro n hn
    rw [UInt32.lt_iff_toNat_lt] at hlt
    exact Bool.eq_false_iff.2 fun hb => hlt (hn.trans_lt (h.lt_capacity n hb))

/-! ## Lists of positions -/

theorem toListFrom_eq {s : PositionSet} (h : s.WellFormed) (start : UInt32) :
    (s.toListFrom start).map (·.toNat) =
      (List.range' start.toNat (s.capacity.toNat - start.toNat)).filter s.bit := by
  fun_induction s.toListFrom start with
  | case1 start hn =>
    have hf := isFirst_next? h start
    rw [hn] at hf
    symm
    rw [List.map_nil, List.filter_eq_nil_iff]
    intro n hmem
    rw [hf n (List.mem_range'_1.1 hmem).1]
    exact Bool.false_ne_true
  | case2 start pos hn hlt ih =>
    have hf := isFirst_next? h start
    rw [hn] at hf
    obtain ⟨hle, hb, hgap⟩ := hf
    have hpos := h.lt_capacity _ hb
    have hsucc : (pos + 1).toNat = pos.toNat + 1 := by
      rw [UInt32.toNat_add]
      exact Nat.mod_eq_of_lt (by have := h.capacity_le; rw [UInt32.toNat_one]; omega)
    have hskip : (List.range' start.toNat (pos.toNat - start.toNat)).filter s.bit = [] := by
      rw [List.filter_eq_nil_iff]
      intro n hmem
      obtain ⟨h₁, h₂⟩ := List.mem_range'_1.1 hmem
      rw [hgap n h₁ (by omega)]
      exact Bool.false_ne_true
    have hsplit : List.range' start.toNat (s.capacity.toNat - start.toNat) =
        List.range' start.toNat (pos.toNat - start.toNat) ++
          pos.toNat :: List.range' (pos.toNat + 1) (s.capacity.toNat - (pos.toNat + 1)) := by
      have h₁ := List.range'_append_1 (s := start.toNat) (m := pos.toNat - start.toNat)
        (n := s.capacity.toNat - pos.toNat)
      rw [show start.toNat + (pos.toNat - start.toNat) = pos.toNat by omega,
        show pos.toNat - start.toNat + (s.capacity.toNat - pos.toNat) =
          s.capacity.toNat - start.toNat by omega] at h₁
      rw [← h₁,
        show s.capacity.toNat - pos.toNat = s.capacity.toNat - (pos.toNat + 1) + 1 by omega,
        List.range'_succ]
    rw [List.map_cons, ih, hsucc, hsplit, List.filter_append, hskip, List.nil_append,
      List.filter_cons_of_pos hb]
  | case3 start pos hn hlt =>
    have hf := isFirst_next? h start
    rw [hn] at hf
    exact absurd ⟨UInt32.le_iff_toNat_le.2 hf.1,
      UInt32.lt_iff_toNat_lt.2 (h.lt_capacity _ hf.2.1)⟩ hlt

/-- The positions of the set are the numbers below the capacity whose bit is set, in this order. -/
theorem toList_eq {s : PositionSet} (h : s.WellFormed) :
    s.toList.map (·.toNat) = (List.range s.capacity.toNat).filter s.bit := by
  rw [toList, toListFrom_eq h, List.range_eq_range']
  rfl

/-! ## Many insertions -/

theorem capacity_foldl_insert (l : List UInt32) (s : PositionSet) :
    (l.foldl insert s).capacity = s.capacity := by
  induction l generalizing s with
  | nil => rfl
  | cons pos l ih => rw [List.foldl_cons, ih, capacity_insert]

theorem wellFormed_foldl_insert {l : List UInt32} {s : PositionSet} (h : s.WellFormed)
    (hl : ∀ pos ∈ l, pos < s.capacity) : (l.foldl insert s).WellFormed := by
  induction l generalizing s with
  | nil => exact h
  | cons pos l ih =>
    apply ih (wellFormed_insert h (hl pos List.mem_cons_self))
    intro q hq
    rw [capacity_insert]
    exact hl q (List.mem_cons_of_mem _ hq)

theorem bit_foldl_insert {l : List UInt32} {s : PositionSet} (h : s.WellFormed)
    (hl : ∀ pos ∈ l, pos < s.capacity) (n : Nat) :
    (l.foldl insert s).bit n = (s.bit n || (l.map (·.toNat)).contains n) := by
  induction l generalizing s with
  | nil => rw [List.foldl_nil, List.map_nil, List.contains_nil, Bool.or_false]
  | cons pos l ih =>
    have hpos := hl pos List.mem_cons_self
    rw [List.foldl_cons, ih (wellFormed_insert h hpos), bit_insert h hpos, List.map_cons,
      List.contains_cons, Bool.or_assoc, Bool.beq_comm (a := n)]
    · intro q hq
      rw [capacity_insert]
      exact hl q (List.mem_cons_of_mem _ hq)

theorem foldl_insert_perm {l l' : List UInt32} (h : l.Perm l') (s : PositionSet) :
    l.foldl insert s = l'.foldl insert s :=
  h.foldl_eq' (fun p _ q _ s => insert_comm s p q) s

theorem foldl_insert_insert {l : List UInt32} {p : UInt32} (h : p ∈ l) (s : PositionSet) :
    (l.foldl insert s).insert p = l.foldl insert s := by
  obtain ⟨l₁, l₂, rfl⟩ := List.append_of_mem h
  have hcomm : ([p] ++ l₂).Perm (l₂ ++ [p]) := List.perm_append_comm
  have hperm : (l₁ ++ p :: l₂).Perm (l₁ ++ l₂ ++ [p]) := by
    rw [List.append_assoc]
    exact hcomm.append_left l₁
  rw [foldl_insert_perm hperm, List.foldl_append]
  exact insert_insert_self _ p

theorem foldl_insert_of_subset {l l' : List UInt32} (h : ∀ p ∈ l', p ∈ l) (s : PositionSet) :
    l'.foldl insert (l.foldl insert s) = l.foldl insert s := by
  induction l' with
  | nil => rfl
  | cons p l' ih =>
    rw [List.foldl_cons, foldl_insert_insert (h p List.mem_cons_self),
      ih fun q hq => h q (List.mem_cons_of_mem _ hq)]

/-- Only which positions are inserted matters. -/
theorem foldl_insert_congr {l l' : List UInt32} (h : ∀ p, p ∈ l ↔ p ∈ l')
    (s : PositionSet) : l.foldl insert s = l'.foldl insert s :=
  calc l.foldl insert s = l'.foldl insert (l.foldl insert s) :=
        (foldl_insert_of_subset (fun p => (h p).2) s).symm
    _ = (l' ++ l).foldl insert s := by
        rw [← List.foldl_append]
        exact foldl_insert_perm List.perm_append_comm s
    _ = l.foldl insert (l'.foldl insert s) := List.foldl_append
    _ = l'.foldl insert s := foldl_insert_of_subset (fun p => (h p).1) s

end RouteTable.PositionSet
