import RouteTable.Utf8.Scalar
import RouteTable.Proofs.Utf8.Sequence

/-!
# Decoding of UTF-8 texts

* `decode?_encode`: what was encoded is decoded again
* `decode?_eq_some_iff`: the text that is decoded is the encoded one
* `isSome_decode?`: the well-formed texts are those that can be decoded
* `encode_prefix_encode_iff`: prefixes of scalar values and of their encodings
* `sequence_utf8EncodeChar`: a scalar value is encoded in one sequence
* `scalarCount_encode`: scalar values are counted by their first bytes
-/

namespace RouteTable.Utf8

/-! ## Bits -/

theorem payload_eq (b : UInt8) : payload b = b.toNat % 64 := by
  revert b
  exact forall_byte (by decide +kernel)

theorem toNat_and_0x1F (b : UInt8) : (b &&& 0x1F).toNat = b.toNat % 32 := by
  revert b
  exact forall_byte (by decide +kernel)

theorem toNat_and_0x0F (b : UInt8) : (b &&& 0x0F).toNat = b.toNat % 16 := by
  revert b
  exact forall_byte (by decide +kernel)

theorem toNat_and_0x07 (b : UInt8) : (b &&& 0x07).toNat = b.toNat % 8 := by
  revert b
  exact forall_byte (by decide +kernel)

theorem allowsSecond_iff {a b : UInt8} :
    allowsSecond a b ↔ (0x80 ≤ b.toNat ∧ b.toNat < 0xC0) ∧
    (a.toNat = 0xE0 → 0xA0 ≤ b.toNat) ∧ (a.toNat = 0xED → b.toNat ≤ 0x9F) ∧
    (a.toNat = 0xF0 → 0x90 ≤ b.toNat) ∧ (a.toNat = 0xF4 → b.toNat ≤ 0x8F) := by
  simp only [allowsSecond, Bool.and_eq_true, isContinuation_iff, Bool.not_eq_true',
    Bool.and_eq_false_iff,
    beq_eq_false_iff_ne, decide_eq_false_iff_not, ne_eq, ← UInt8.toNat_inj, UInt8.lt_iff_toNat_lt]
  simp only [UInt8.reduceToNat]
  omega

theorem ofNat_eq {n : Nat} {b : UInt8} (h : n = b.toNat) : UInt8.ofNat n = b := by
  rw [h, UInt8.ofNat_toNat]

theorem toNat_ofNat {n : Nat} (h : n < 256) : (UInt8.ofNat n).toNat = n :=
  UInt8.toNat_ofNat_of_lt' h

theorem toNat_val_ofNat {n : Nat} (h : n.isValidChar) : (Char.ofNat n).val.toNat = n := by
  simp [Char.ofNat, h, Char.ofNatAux]

/-! ## Single characters -/

section

variable {a b c d : UInt8}

theorem utf8EncodeChar_one (ha : sequenceLength a = 1) :
    String.utf8EncodeChar (Char.ofNat a.toNat) = [a] := by
  rw [sequenceLength_eq_one_iff] at ha
  have hv : a.toNat.isValidChar := Or.inl (by omega)
  simp only [String.utf8EncodeChar, toNat_val_ofNat hv]
  rw [if_pos (by omega), UInt8.ofNat_toNat]

theorem utf8EncodeChar_two (ha : sequenceLength a = 2) (hb : isContinuation b) :
    String.utf8EncodeChar (Char.ofNat ((a &&& 0x1F).toNat * 64 + payload b)) = [a, b] := by
  rw [sequenceLength_eq_two_iff] at ha
  rw [isContinuation_iff] at hb
  rw [toNat_and_0x1F, payload_eq]
  have hv : (a.toNat % 32 * 64 + b.toNat % 64).isValidChar := Or.inl (by omega)
  simp only [String.utf8EncodeChar, toNat_val_ofNat hv]
  rw [if_neg (by omega), if_pos (by omega), ofNat_eq (b := a) (by omega),
    ofNat_eq (b := b) (by omega)]

theorem utf8EncodeChar_three (ha : sequenceLength a = 3) (hb : allowsSecond a b)
    (hc : isContinuation c) :
    String.utf8EncodeChar (Char.ofNat (((a &&& 0x0F).toNat * 64 + payload b) * 64 + payload c)) =
      [a, b, c] := by
  rw [sequenceLength_eq_three_iff] at ha
  rw [allowsSecond_iff] at hb
  rw [isContinuation_iff] at hc
  rw [toNat_and_0x0F, payload_eq, payload_eq]
  have hv : ((a.toNat % 16 * 64 + b.toNat % 64) * 64 + c.toNat % 64).isValidChar := by
    unfold Nat.isValidChar
    omega
  simp only [String.utf8EncodeChar, toNat_val_ofNat hv]
  rw [if_neg (by omega), if_neg (by omega), if_pos (by omega), ofNat_eq (b := a) (by omega),
    ofNat_eq (b := b) (by omega), ofNat_eq (b := c) (by omega)]

theorem utf8EncodeChar_four (ha : sequenceLength a = 4) (hb : allowsSecond a b)
    (hc : isContinuation c) (hd : isContinuation d) :
    String.utf8EncodeChar (Char.ofNat
      ((((a &&& 0x07).toNat * 64 + payload b) * 64 + payload c) * 64 + payload d)) =
        [a, b, c, d] := by
  rw [sequenceLength_eq_four_iff] at ha
  rw [allowsSecond_iff] at hb
  rw [isContinuation_iff] at hc hd
  rw [toNat_and_0x07, payload_eq, payload_eq, payload_eq]
  have hv : (((a.toNat % 8 * 64 + b.toNat % 64) * 64 + c.toNat % 64) * 64 +
      d.toNat % 64).isValidChar := by
    unfold Nat.isValidChar
    omega
  simp only [String.utf8EncodeChar, toNat_val_ofNat hv]
  rw [if_neg (by omega), if_neg (by omega), if_neg (by omega), ofNat_eq (b := a) (by omega),
    ofNat_eq (b := b) (by omega), ofNat_eq (b := c) (by omega), ofNat_eq (b := d) (by omega)]

end

/-- The encoding of a character is decoded again, whatever follows it. -/
theorem decode?_utf8EncodeChar_append (c : Char) (s : Bytes) :
    decode? (String.utf8EncodeChar c ++ s) = (decode? s).map (c :: ·) := by
  have hvalid : c.toNat.isValidChar := c.valid
  have hc : ∀ {n}, n = c.toNat → Char.ofNat n = c := by
    intro n hn
    rw [hn, Char.ofNat_toNat]
  have hv : c.val.toNat = c.toNat := rfl
  generalize hn : c.toNat = n at hvalid hc hv
  unfold Nat.isValidChar at hvalid
  simp only [String.utf8EncodeChar, hv]
  split
  · have h₁ : sequenceLength (.ofNat n) = 1 := by
      rw [sequenceLength_eq_one_iff, toNat_ofNat (by omega)]
      omega
    simp only [List.cons_append, List.nil_append, decode?, h₁]
    rw [hc (toNat_ofNat (by omega))]
  split
  · have h₁ : sequenceLength (.ofNat (n / 64 % 0x20 + 0xc0)) = 2 := by
      rw [sequenceLength_eq_two_iff, toNat_ofNat (by omega)]
      omega
    have h₂ : isContinuation (.ofNat (n % 0x40 + 0x80)) := by
      rw [isContinuation_iff, toNat_ofNat (by omega)]
      omega
    simp only [List.cons_append, List.nil_append, decode?, h₁, h₂, if_true]
    rw [hc]
    rw [toNat_and_0x1F, payload_eq, toNat_ofNat (by omega), toNat_ofNat (by omega)]
    omega
  split
  · have h₁ : sequenceLength (.ofNat (n / 4096 % 0x10 + 0xe0)) = 3 := by
      rw [sequenceLength_eq_three_iff, toNat_ofNat (by omega)]
      omega
    have h₂ : allowsSecond (.ofNat (n / 4096 % 0x10 + 0xe0)) (.ofNat (n / 64 % 0x40 + 0x80)) := by
      rw [allowsSecond_iff, toNat_ofNat (by omega), toNat_ofNat (by omega)]
      omega
    have h₃ : isContinuation (.ofNat (n % 0x40 + 0x80)) := by
      rw [isContinuation_iff, toNat_ofNat (by omega)]
      omega
    simp only [List.cons_append, List.nil_append, decode?, h₁, h₂, h₃, Bool.and_self, if_true]
    rw [hc]
    rw [toNat_and_0x0F, payload_eq, payload_eq, toNat_ofNat (by omega), toNat_ofNat (by omega),
      toNat_ofNat (by omega)]
    omega
  · have h₁ : sequenceLength (.ofNat (n / 262144 % 0x08 + 0xf0)) = 4 := by
      rw [sequenceLength_eq_four_iff, toNat_ofNat (by omega)]
      omega
    have h₂ : allowsSecond (.ofNat (n / 262144 % 0x08 + 0xf0))
        (.ofNat (n / 4096 % 0x40 + 0x80)) := by
      rw [allowsSecond_iff, toNat_ofNat (by omega), toNat_ofNat (by omega)]
      omega
    have h₃ : isContinuation (.ofNat (n / 64 % 0x40 + 0x80)) := by
      rw [isContinuation_iff, toNat_ofNat (by omega)]
      omega
    have h₄ : isContinuation (.ofNat (n % 0x40 + 0x80)) := by
      rw [isContinuation_iff, toNat_ofNat (by omega)]
      omega
    simp only [List.cons_append, List.nil_append, decode?, h₁, h₂, h₃, h₄,
      Bool.and_self, if_true]
    rw [hc]
    rw [toNat_and_0x07, payload_eq, payload_eq, payload_eq, toNat_ofNat (by omega),
      toNat_ofNat (by omega), toNat_ofNat (by omega), toNat_ofNat (by omega)]
    omega

/-! ## Texts -/

theorem encode_cons (c : Char) (cs : List Char) :
    encode (c :: cs) = String.utf8EncodeChar c ++ encode cs :=
  List.flatMap_cons

theorem encode_singleton (c : Char) : encode [c] = String.utf8EncodeChar c :=
  List.flatMap_singleton _ c

theorem encode_append (cs ds : List Char) : encode (cs ++ ds) = encode cs ++ encode ds :=
  List.flatMap_append

theorem decode?_encode_append (cs : List Char) (s : Bytes) :
    decode? (encode cs ++ s) = (decode? s).map (cs ++ ·) := by
  induction cs with
  | nil => simp [encode]
  | cons c cs ih =>
    rw [encode_cons, List.append_assoc, decode?_utf8EncodeChar_append, ih, Option.map_map]
    rfl

theorem decode?_encode (cs : List Char) : decode? (encode cs) = some cs := by
  have h := decode?_encode_append cs []
  rwa [List.append_nil, decode?, Option.map_some, List.append_nil] at h

theorem encode_of_decode? {s : Bytes} {cs : List Char} (h : decode? s = some cs) :
    encode cs = s := by
  fun_induction decode? s generalizing cs with
  | case1 =>
    obtain rfl := Option.some.inj h
    rfl
  | case2 a s ha ih =>
    obtain ⟨cs, hs, rfl⟩ := Option.map_eq_some_iff.1 h
    rw [encode_cons, ih hs, utf8EncodeChar_one ha]
    rfl
  | case3 a b s ha hb ih =>
    obtain ⟨cs, hs, rfl⟩ := Option.map_eq_some_iff.1 h
    rw [encode_cons, ih hs, utf8EncodeChar_two ha hb]
    rfl
  | case5 a b c s ha hbc ih =>
    obtain ⟨cs, hs, rfl⟩ := Option.map_eq_some_iff.1 h
    obtain ⟨hb, hc⟩ := Bool.and_eq_true_iff.1 hbc
    rw [encode_cons, ih hs, utf8EncodeChar_three ha hb hc]
    rfl
  | case7 a b c d s ha hbcd ih =>
    obtain ⟨cs, hs, rfl⟩ := Option.map_eq_some_iff.1 h
    obtain ⟨hbc, hd⟩ := Bool.and_eq_true_iff.1 hbcd
    obtain ⟨hb, hc⟩ := Bool.and_eq_true_iff.1 hbc
    rw [encode_cons, ih hs, utf8EncodeChar_four ha hb hc hd]
    rfl
  | _ => exact nomatch h

theorem decode?_eq_some_iff {s : Bytes} {cs : List Char} :
    decode? s = some cs ↔ s = encode cs := by
  constructor
  · exact fun h => (encode_of_decode? h).symm
  · rintro rfl
    exact decode?_encode cs

theorem isSome_decode? (s : Bytes) : (decode? s).isSome = isValid s := by
  fun_induction decode? s <;> simp_all [isValid]

theorem exists_eq_encode_of_isValid {s : Bytes} (h : isValid s) : ∃ cs, s = encode cs := by
  rw [← isSome_decode?] at h
  obtain ⟨cs, h⟩ := Option.isSome_iff_exists.1 h
  exact ⟨cs, decode?_eq_some_iff.1 h⟩

theorem isValid_encode (cs : List Char) : isValid (encode cs) := by
  rw [← isSome_decode?, decode?_encode, Option.isSome_some]

theorem encode_injective {cs ds : List Char} (h : encode cs = encode ds) : cs = ds := by
  have := congrArg decode? h
  rwa [decode?_encode, decode?_encode, Option.some.injEq] at this

theorem encode_prefix_encode_iff {cs ds : List Char} : encode cs <+: encode ds ↔ cs <+: ds := by
  constructor
  · rintro ⟨s, hs⟩
    have h := congrArg decode? hs
    rw [decode?_encode_append, decode?_encode] at h
    obtain ⟨es, -, hes⟩ := Option.map_eq_some_iff.1 h
    exact ⟨es, hes⟩
  · rintro ⟨es, rfl⟩
    exact ⟨encode es, (encode_append cs es).symm⟩

/-! ## Sequences -/

theorem Sequence.exists_char {q : Bytes} (hq : Sequence q) :
    ∃ c, q = String.utf8EncodeChar c := by
  cases hq with
  | one ha => exact ⟨_, (utf8EncodeChar_one ha).symm⟩
  | two ha hb => exact ⟨_, (utf8EncodeChar_two ha hb).symm⟩
  | three ha hb hc => exact ⟨_, (utf8EncodeChar_three ha hb hc).symm⟩
  | four ha hb hc hd => exact ⟨_, (utf8EncodeChar_four ha hb hc hd).symm⟩

theorem sequence_utf8EncodeChar (c : Char) : Sequence (String.utf8EncodeChar c) := by
  rw [← encode_singleton]
  rcases eq_nil_or_sequence (isValid_encode [c]) with hnil | ⟨q, r, hq, hr, he⟩
  · exact absurd (@encode_injective [c] [] hnil) (List.cons_ne_nil c [])
  · -- What follows the first sequence encodes nothing, since only one character is encoded.
    obtain ⟨d, rfl⟩ := hq.exists_char
    obtain ⟨ds, rfl⟩ := exists_eq_encode_of_isValid hr
    rw [← encode_cons] at he
    obtain ⟨rfl, -⟩ := List.cons.inj (encode_injective he)
    rwa [encode_singleton]

/-- A sequence counts as one scalar value, because of its first byte. -/
theorem Sequence.scalarCount_append {q : Bytes} (hq : Sequence q) (s : Bytes) :
    scalarCount (q ++ s) = scalarCount s + 1 := by
  obtain ⟨a, t, rfl, hlen, ht⟩ := hq.eq_cons
  have ha : isContinuation a = false := by
    refine Bool.eq_false_iff.2 fun h => ?_
    rw [sequenceLength_of_isContinuation h] at hlen
    exact absurd hlen (by simp)
  have hcount : t.countP (!isContinuation ·) = 0 :=
    List.countP_eq_zero.2 fun b hb => by simp [ht b hb]
  rw [scalarCount, scalarCount, List.countP_append, List.countP_cons_of_pos (by simp [ha]), hcount]
  omega

theorem scalarCount_encode (cs : List Char) : scalarCount (encode cs) = cs.length := by
  induction cs with
  | nil => rfl
  | cons c cs ih =>
    rw [encode_cons, (sequence_utf8EncodeChar c).scalarCount_append, ih, List.length_cons]

end RouteTable.Utf8
