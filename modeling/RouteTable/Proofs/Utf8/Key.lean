import RouteTable.Proofs.Utf8.Sequence

/-!
# Shared prefixes and lead keys

Two texts are compared up to a boundary of both, and the first sequences of texts are told apart by
words.

* `isBoundary_floorBoundary`, `le_floorBoundary`: the floor of a position is the largest boundary up
  to it
* `isBoundary_sharedPrefixLength_left`, `isBoundary_sharedPrefixLength_right`,
  `le_sharedPrefixLength`: the shared prefix of two texts is the longest common one that ends on a
  boundary of both
* `leadBytes`: the bytes of a text that are packed into its key
* `leadKey_eq_iff`: the packed bytes can be told from the key, whether they are a sequence or not
* `leadKey_append`: the key of a text is the key of its first sequence
* `leadKey_injective`: different sequences have different keys
* `exists_shared_sequence`: texts with the same key share a sequence
-/

namespace RouteTable.Utf8

/-! ## Floors of positions -/

theorem floorBoundary_of_length_le {s : Bytes} {n : Nat} (h : s.length ≤ n) :
    floorBoundary s n = n := by
  rw [floorBoundary, if_neg (Nat.not_lt.2 h)]

theorem floorBoundary_of_not_continuation {s : Bytes} {n : Nat} (h : n < s.length)
    (hb : isContinuation s[n] = false) : floorBoundary s n = n := by
  rw [floorBoundary, if_pos h, List.take_succ_eq_append_getElem h, List.reverse_concat,
    List.takeWhile_cons_of_neg (by simpa using hb)]
  rfl

theorem floorBoundary_succ {s : Bytes} {n : Nat} (h : n + 1 < s.length)
    (hb : isContinuation s[n + 1]) : floorBoundary s (n + 1) = floorBoundary s n := by
  rw [floorBoundary, floorBoundary, if_pos h, if_pos (Nat.lt_of_succ_lt h),
    List.take_succ_eq_append_getElem h, List.reverse_concat, List.takeWhile_cons_of_pos hb,
    List.length_cons]
  omega

theorem floorBoundary_le (s : Bytes) (n : Nat) : floorBoundary s n ≤ n := by
  rw [floorBoundary]
  split
  · exact Nat.sub_le _ _
  · exact Nat.le_refl _

theorem floorBoundary_zero (s : Bytes) : floorBoundary s 0 = 0 :=
  Nat.le_zero.1 (floorBoundary_le s 0)

theorem isBoundary_floorBoundary (s : Bytes) {n : Nat} (h : n ≤ s.length) :
    IsBoundary s (floorBoundary s n) := by
  induction n with
  | zero => exact Or.inl (floorBoundary_zero s)
  | succ n ih =>
    by_cases he : n + 1 = s.length
    · rw [floorBoundary_of_length_le (Nat.le_of_eq he.symm)]
      exact Or.inr (Or.inl he)
    have hlt : n + 1 < s.length := by omega
    cases hb : isContinuation s[n + 1] with
    | true =>
      rw [floorBoundary_succ hlt hb]
      exact ih (by omega)
    | false =>
      rw [floorBoundary_of_not_continuation hlt hb]
      exact Or.inr (Or.inr ⟨_, List.getElem?_eq_getElem hlt, hb⟩)

theorem le_floorBoundary {s : Bytes} {m n : Nat} (hm : IsBoundary s m) (h : m ≤ n) :
    m ≤ floorBoundary s n := by
  induction n with
  | zero => exact h.trans (Nat.zero_le _)
  | succ n ih =>
    by_cases hlt : n + 1 < s.length
    · cases hb : isContinuation s[n + 1] with
      | true =>
        rw [floorBoundary_succ hlt hb]
        refine ih (Nat.le_of_lt_succ (Nat.lt_of_le_of_ne h ?_))
        rintro rfl
        -- A position whose byte continues a sequence is no boundary.
        rcases hm with hm | hm | ⟨b, hb', hc⟩
        · exact absurd hm (Nat.succ_ne_zero n)
        · omega
        · rw [List.getElem?_eq_getElem hlt, Option.some.injEq] at hb'
          rw [← hb', hb] at hc
          exact absurd hc (by decide)
      | false =>
        rw [floorBoundary_of_not_continuation hlt hb]
        exact h
    · rw [floorBoundary_of_length_le (Nat.not_lt.1 hlt)]
      exact h

/-! ## Agreement -/

theorem take_agreement (a b : Bytes) : a.take (agreement a b) = b.take (agreement a b) := by
  fun_induction agreement a b with
  | case1 x as bs ih => rw [List.take_succ_cons, List.take_succ_cons, ih]
  | case2 => rfl
  | case3 => rfl

theorem agreement_le (a b : Bytes) : agreement a b ≤ a.length ∧ agreement a b ≤ b.length := by
  fun_induction agreement a b with
  | case1 x as bs ih =>
    rw [List.length_cons, List.length_cons]
    omega
  | case2 => exact ⟨Nat.zero_le _, Nat.zero_le _⟩
  | case3 => exact ⟨Nat.zero_le _, Nat.zero_le _⟩

theorem le_agreement_append (q a b : Bytes) : q.length ≤ agreement (q ++ a) (q ++ b) := by
  induction q with
  | nil => exact Nat.zero_le _
  | cons x q ih =>
    rw [List.cons_append, List.cons_append, agreement, if_pos rfl, List.length_cons]
    exact Nat.succ_le_succ ih

/-! ## Shared prefixes -/

theorem sharedPrefixLength_le_agreement (a b : Bytes) : sharedPrefixLength a b ≤ agreement a b :=
  (Nat.min_le_left _ _).trans (floorBoundary_le a _)

theorem take_sharedPrefixLength (a b : Bytes) :
    a.take (sharedPrefixLength a b) = b.take (sharedPrefixLength a b) := by
  have h := congrArg (List.take (sharedPrefixLength a b)) (take_agreement a b)
  rwa [List.take_take, List.take_take, Nat.min_eq_left (sharedPrefixLength_le_agreement a b)] at h

theorem isBoundary_of_lt_agreement {a b : Bytes} {n : Nat} (h : IsBoundary a n)
    (hn : n < agreement a b) : IsBoundary b n := by
  have hl := agreement_le a b
  rcases h with h | h | ⟨x, hx, hc⟩
  · exact Or.inl h
  · omega
  · refine Or.inr (Or.inr ⟨x, ?_, hc⟩)
    have := congrArg (·[n]?) (take_agreement a b)
    simp only [List.getElem?_take_of_lt hn] at this
    rwa [← this]

theorem agreement_comm (a b : Bytes) : agreement a b = agreement b a := by
  fun_induction agreement a b with
  | case1 x as bs ih => rw [agreement, if_pos rfl, ih]
  | case2 x as y bs h => rw [agreement, if_neg (Ne.symm h)]
  | case3 a b h =>
    cases a with
    | nil => cases b <;> rfl
    | cons x as =>
      cases b with
      | nil => rfl
      | cons y bs => exact absurd rfl (h x as y bs rfl)

theorem sharedPrefixLength_comm (a b : Bytes) :
    sharedPrefixLength a b = sharedPrefixLength b a := by
  rw [sharedPrefixLength, sharedPrefixLength, agreement_comm a b]
  exact Nat.min_comm _ _

theorem isBoundary_sharedPrefixLength_left (a b : Bytes) :
    IsBoundary a (sharedPrefixLength a b) := by
  have ha := isBoundary_floorBoundary a (agreement_le a b).1
  have hb := isBoundary_floorBoundary b (agreement_le a b).2
  rw [sharedPrefixLength]
  rcases Nat.le_total (floorBoundary a (agreement a b)) (floorBoundary b (agreement a b)) with h | h
  · rwa [Nat.min_eq_left h]
  · rw [Nat.min_eq_right h]
    by_cases hlt : floorBoundary b (agreement a b) < agreement a b
    · rw [agreement_comm] at hlt ⊢
      rw [agreement_comm] at hb
      exact isBoundary_of_lt_agreement hb hlt
    · -- Both floors are the whole agreement, which is a boundary of each text.
      have h₁ := floorBoundary_le a (agreement a b)
      have h₂ : floorBoundary b (agreement a b) = floorBoundary a (agreement a b) := by omega
      rwa [h₂]

theorem isBoundary_sharedPrefixLength_right (a b : Bytes) :
    IsBoundary b (sharedPrefixLength a b) := by
  rw [sharedPrefixLength_comm]
  exact isBoundary_sharedPrefixLength_left b a

theorem le_sharedPrefixLength {a b : Bytes} {n : Nat} (ha : IsBoundary a n) (hb : IsBoundary b n)
    (h : n ≤ agreement a b) : n ≤ sharedPrefixLength a b :=
  Nat.le_min.2 ⟨le_floorBoundary ha h, le_floorBoundary hb h⟩

/-! ## Keys -/

/-- Bytes as the digits of a number, the last one being lowest. -/
def packedValue (l : Bytes) (n : Nat := 0) : Nat :=
  l.foldl (fun n b => 256 * n + b.toNat) n

theorem toNat_shift_or (k : UInt32) (b : UInt8) (h : k.toNat < 2 ^ 24) :
    (k <<< 8 ||| b.toUInt32).toNat = 256 * k.toNat + b.toNat := by
  have hb := b.toNat_lt
  have hk : k.toNat <<< 8 = 2 ^ 8 * k.toNat := by rw [Nat.shiftLeft_eq, Nat.mul_comm]
  rw [UInt32.toNat_or, UInt32.toNat_shiftLeft, UInt8.toNat_toUInt32]
  simp only [UInt32.reduceToNat, Nat.reduceMod, hk]
  rw [Nat.mod_eq_of_lt (by omega), ← Nat.two_pow_add_eq_or_of_lt hb]

/-- Bytes are packed without loss as long as there is room for them. -/
theorem toNat_foldl_pack (l : Bytes) (k : UInt32) (h : (k.toNat + 1) * 256 ^ l.length ≤ 2 ^ 32) :
    (l.foldl (fun (key : UInt32) b => key <<< 8 ||| b.toUInt32) k).toNat =
      packedValue l k.toNat := by
  induction l generalizing k with
  | nil => rfl
  | cons b l ih =>
    rw [List.length_cons, Nat.pow_succ, Nat.mul_comm _ 256, ← Nat.mul_assoc] at h
    have hk : k.toNat < 2 ^ 24 := by
      have : (k.toNat + 1) * 256 * 1 ≤ (k.toNat + 1) * 256 * 256 ^ l.length :=
        Nat.mul_le_mul_left _ (Nat.pow_pos (by decide))
      omega
    have hb := b.toNat_lt
    have hstep := toNat_shift_or k b hk
    rw [List.foldl_cons, ih, hstep]
    · rfl
    · rw [hstep]
      exact (Nat.mul_le_mul_right _ (by omega)).trans h

/-- The bytes of a text that are packed into its key: the first sequence, or as much as there is of
it. -/
def leadBytes (s : Bytes) : Bytes :=
  s.take (max 1 (sequenceLength (s.headD 0)))

theorem leadBytes_cons (a : UInt8) (t : Bytes) :
    leadBytes (a :: t) = a :: t.take (sequenceLength a - 1) := by
  rw [leadBytes, List.headD_cons, show max 1 (sequenceLength a) = sequenceLength a - 1 + 1 by omega,
    List.take_succ_cons]

theorem leadBytes_ne_nil {s : Bytes} (h : s ≠ []) : leadBytes s ≠ [] := by
  obtain ⟨a, t, rfl⟩ := List.exists_cons_of_ne_nil h
  rw [leadBytes_cons]
  exact List.cons_ne_nil _ _

theorem leadBytes_prefix (s : Bytes) : leadBytes s <+: s :=
  List.take_prefix _ s

theorem length_leadBytes_le (s : Bytes) : (leadBytes s).length ≤ 4 := by
  have := sequenceLength_le (s.headD 0)
  rw [leadBytes, List.length_take]
  omega

theorem leadBytes_append {q : Bytes} (hq : Sequence q) (r : Bytes) : leadBytes (q ++ r) = q := by
  obtain ⟨a, t, rfl, ha, -⟩ := hq.eq_cons
  rw [List.cons_append, leadBytes_cons, ha, List.length_cons, Nat.add_sub_cancel, List.take_left]

/-- The byte 0 is a sequence alone. -/
theorem leadBytes_eq_of_head? {s : Bytes} (h : (leadBytes s).head? = some 0) :
    leadBytes s = [0] := by
  cases s with
  | nil => exact nomatch h
  | cons a t =>
    rw [leadBytes_cons, List.head?_cons, Option.some.injEq] at h
    rw [leadBytes_cons, h, show sequenceLength 0 = 1 from rfl, Nat.sub_self, List.take_zero]

theorem toNat_leadKey (s : Bytes) : (leadKey s).toNat = packedValue (leadBytes s) := by
  have hfold : leadKey s = (leadBytes s).foldl (fun (key : UInt32) b =>
      key <<< 8 ||| b.toUInt32) 0 := by
    cases s <;> rfl
  rw [hfold]
  apply toNat_foldl_pack _ 0
  calc (0 + 1) * 256 ^ (leadBytes s).length ≤ (0 + 1) * 256 ^ 4 :=
        Nat.mul_le_mul_left _ (Nat.pow_le_pow_right (by decide) (length_leadBytes_le s))
    _ = 2 ^ 32 := by decide

theorem packedValue_eq_ofDigits (l : Bytes) :
    packedValue l = Nat.ofDigits 256 (l.map (·.toNat)).reverse := by
  induction l using List.reverseRecOn with
  | nil => rfl
  | append_singleton l b ih =>
    rw [packedValue, List.foldl_concat, ← packedValue, ih, List.map_append, List.map_singleton,
      List.reverse_concat, Nat.ofDigits_cons, Nat.add_comm]

/-- Bytes that do not begin with 0 are the digits of the number into which they are packed. -/
theorem digits_packedValue {l : Bytes} (h : l.head? ≠ some 0) :
    Nat.digits 256 (packedValue l) = (l.map (·.toNat)).reverse := by
  rw [packedValue_eq_ofDigits]
  refine Nat.digits_ofDigits 256 (by decide) _ (fun n hn => ?_) fun hne hlast => h ?_
  · obtain ⟨b, -, rfl⟩ := List.mem_map.1 (List.mem_reverse.1 hn)
    exact b.toNat_lt
  · -- The highest digit is the first byte.
    rw [List.getLast_reverse, List.head_map, ← UInt8.toNat_zero, UInt8.toNat_inj] at hlast
    rw [← hlast, List.head?_eq_some_head]

theorem packedValue_ne_zero {l : Bytes} (hne : l ≠ []) (h : l.head? ≠ some 0) :
    packedValue l ≠ 0 := by
  intro hzero
  have hdigits := digits_packedValue h
  rw [hzero, Nat.digits_zero, eq_comm, List.reverse_eq_nil_iff, List.map_eq_nil_iff] at hdigits
  exact hne hdigits

/-- Different bytes are packed into different numbers, whatever their numbers of bytes are, if only
the byte 0 alone begins with 0. -/
theorem packedValue_injective {l l' : Bytes} (hne : l ≠ []) (hne' : l' ≠ [])
    (hzero : l.head? = some 0 → l = [0]) (hzero' : l'.head? = some 0 → l' = [0])
    (h : packedValue l = packedValue l') : l = l' := by
  by_cases hl : l.head? = some 0
  · by_cases hl' : l'.head? = some 0
    · rw [hzero hl, hzero' hl']
    · rw [hzero hl] at h
      exact absurd h.symm (packedValue_ne_zero hne' hl')
  · by_cases hl' : l'.head? = some 0
    · rw [hzero' hl'] at h
      exact absurd h (packedValue_ne_zero hne hl)
    · have hdigits := congrArg (Nat.digits 256) h
      rw [digits_packedValue hl, digits_packedValue hl', List.reverse_inj] at hdigits
      exact List.map_injective_iff.2 (fun _ _ => UInt8.toNat_inj.1) hdigits

theorem leadKey_eq_iff {s s' : Bytes} (hs : s ≠ []) (hs' : s' ≠ []) :
    leadKey s = leadKey s' ↔ leadBytes s = leadBytes s' := by
  rw [← UInt32.toNat_inj, toNat_leadKey, toNat_leadKey]
  constructor
  · exact packedValue_injective (leadBytes_ne_nil hs) (leadBytes_ne_nil hs') leadBytes_eq_of_head?
      leadBytes_eq_of_head?
  · exact congrArg packedValue

/-- A text has the key of one that begins with a sequence if and only if it begins with this
sequence, too. -/
theorem leadKey_eq_append_iff {q s : Bytes} (hq : Sequence q) (hs : s ≠ []) (r : Bytes) :
    leadKey s = leadKey (q ++ r) ↔ q <+: s := by
  rw [leadKey_eq_iff hs (hq.append_ne_nil r), leadBytes_append hq]
  constructor
  · exact fun h => h ▸ leadBytes_prefix s
  · rintro ⟨r', rfl⟩
    exact leadBytes_append hq r'

theorem leadKey_append {q : Bytes} (hq : Sequence q) (r r' : Bytes) :
    leadKey (q ++ r) = leadKey (q ++ r') :=
  (leadKey_eq_append_iff hq (hq.append_ne_nil r) r').2 ⟨r, rfl⟩

theorem leadKey_injective {q q' : Bytes} (hq : Sequence q) (hq' : Sequence q') (r r' : Bytes)
    (h : leadKey (q ++ r) = leadKey (q' ++ r')) : q = q' := by
  rwa [leadKey_eq_iff (hq.append_ne_nil r) (hq'.append_ne_nil r'), leadBytes_append hq,
    leadBytes_append hq'] at h

theorem leadKey_eq_of_prefix {a b : Bytes} (ha : isValid a) (hne : a ≠ []) (h : a <+: b) :
    leadKey a = leadKey b := by
  obtain ⟨s, rfl⟩ := h
  rcases eq_nil_or_sequence ha with rfl | ⟨q, r, hq, -, rfl⟩
  · exact absurd rfl hne
  · rw [List.append_assoc]
    exact leadKey_append hq _ _

theorem exists_shared_sequence {a b : Bytes} (ha : isValid a) (hb : isValid b) (hane : a ≠ [])
    (hbne : b ≠ []) (h : leadKey a = leadKey b) :
    ∃ q, Sequence q ∧ q <+: a ∧ q <+: b ∧ q.length ≤ sharedPrefixLength a b := by
  rcases eq_nil_or_sequence ha with rfl | ⟨q, r, hq, hr, rfl⟩
  · exact absurd rfl hane
  rcases eq_nil_or_sequence hb with rfl | ⟨q', r', hq', hr', rfl⟩
  · exact absurd rfl hbne
  obtain rfl := leadKey_injective hq hq' r r' h
  refine ⟨q, hq, ⟨r, rfl⟩, ⟨r', rfl⟩, le_sharedPrefixLength ?_ ?_ ?_⟩
  · exact isBoundary_length_append hr
  · exact isBoundary_length_append hr'
  · exact le_agreement_append q r r'

end RouteTable.Utf8
