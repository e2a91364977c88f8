import RouteTable.Proofs.Utf8.Decoding
import RouteTable.Proofs.Utf8.Key

/-!
# What two texts share

* `shared`: the longest common prefix of two texts in whole sequences
* `IsShared`: a text is that prefix
* `prefix_shared_iff`: the well-formed texts in front of it are those in front of both texts
* `isGreatest_sharedPrefixLength`: it ends at the last boundary of both texts up to which they
  agree, and encodes the longest common prefix of their scalar values
* `shared_of_prefix`: a prefix shares with a third text what the whole text does, or all of itself
* `leadKey_drop_ne`: behind what they share, texts have different keys
* `leadKey_eq_iff_shares_char`: texts have the same key if they begin with the same scalar value,
  and in no other way if one of them begins with a scalar value
* `branchTexts`: the empty text, some texts, and what any two of them share
* `mem_branchTexts_insert_iff`: one more text
-/

namespace RouteTable.Utf8

variable {a b c q v w : Bytes}

def shared (a b : Bytes) : Bytes :=
  a.take (sharedPrefixLength a b)

/-- The longest well-formed text that both texts begin with. -/
structure IsShared (w a b : Bytes) : Prop where
  isValid : Utf8.isValid w
  prefix_left : w <+: a
  prefix_right : w <+: b
  longest : ∀ v, Utf8.isValid v → v <+: a → v <+: b → v <+: w

theorem shared_comm (a b : Bytes) : shared a b = shared b a := by
  rw [shared, take_sharedPrefixLength, sharedPrefixLength_comm, shared]

theorem shared_prefix_left (a b : Bytes) : shared a b <+: a :=
  List.take_prefix _ a

theorem shared_prefix_right (a b : Bytes) : shared a b <+: b := by
  rw [shared_comm]
  exact shared_prefix_left b a

theorem shared_append_drop_left (a b : Bytes) : shared a b ++ a.drop (sharedPrefixLength a b) = a :=
  List.take_append_drop _ a

theorem shared_append_drop_right (a b : Bytes) :
    shared a b ++ b.drop (sharedPrefixLength a b) = b := by
  rw [shared_comm, sharedPrefixLength_comm]
  exact shared_append_drop_left b a

theorem length_shared (a b : Bytes) : (shared a b).length = sharedPrefixLength a b := by
  have := sharedPrefixLength_le_agreement a b
  have := (agreement_le a b).1
  rw [shared, List.length_take]
  omega

theorem isValid_shared (ha : isValid a) (b : Bytes) : isValid (shared a b) :=
  isValid_take ha (isBoundary_sharedPrefixLength_left a b)

theorem isValid_of_append (ha : isValid a) (h : isValid (a ++ b)) : isValid b := by
  rwa [isValid_append ha] at h

theorem isShared_shared (ha : isValid a) (hb : isValid b) : IsShared (shared a b) a b where
  isValid := isValid_shared ha b
  prefix_left := shared_prefix_left a b
  prefix_right := shared_prefix_right a b
  longest v hv hva hvb := by
    refine List.prefix_of_prefix_length_le hva (shared_prefix_left a b) ?_
    obtain ⟨a', rfl⟩ := hva
    obtain ⟨b', rfl⟩ := hvb
    rw [length_shared]
    apply le_sharedPrefixLength
    · exact isBoundary_length_append (isValid_of_append hv ha)
    · exact isBoundary_length_append (isValid_of_append hv hb)
    · exact le_agreement_append v a' b'

theorem IsShared.unique (h : IsShared v a b) (h' : IsShared w a b) : v = w :=
  (h'.longest v h.isValid h.prefix_left h.prefix_right).sublist.antisymm
    (h.longest w h'.isValid h'.prefix_left h'.prefix_right).sublist

theorem isShared_iff (ha : isValid a) (hb : isValid b) : IsShared w a b ↔ w = shared a b := by
  constructor
  · exact fun h => h.unique (isShared_shared ha hb)
  · rintro rfl
    exact isShared_shared ha hb

theorem prefix_shared_iff (ha : isValid a) (hb : isValid b) (hv : isValid v) :
    v <+: shared a b ↔ v <+: a ∧ v <+: b := by
  constructor
  · exact fun h => ⟨h.trans (shared_prefix_left a b), h.trans (shared_prefix_right a b)⟩
  · exact fun h => (isShared_shared ha hb).longest v hv h.1 h.2

/-! ## The longest common prefix -/

theorem IsBoundary.le_length {s : Bytes} {n : Nat} (h : IsBoundary s n) : n ≤ s.length := by
  rcases h with rfl | rfl | ⟨b, hb, -⟩
  · exact Nat.zero_le _
  · exact Nat.le_refl _
  · exact Nat.le_of_lt (List.getElem?_eq_some_iff.1 hb).1

theorem le_agreement_of_take_eq {n : Nat} (h : a.take n = b.take n) (hn : n ≤ a.length) :
    n ≤ agreement a b := by
  have hle := le_agreement_append (a.take n) (a.drop n) (b.drop n)
  rw [List.length_take_of_le hn, List.take_append_drop, h, List.take_append_drop] at hle
  exact hle

/-- The length of the shared prefix is the largest number of bytes on which the texts agree that is
a boundary of both, whichever text comes first. If both texts are well-formed, then these bytes
encode the longest common prefix of their scalar values. -/
theorem isGreatest_sharedPrefixLength (a b : Bytes) :
    IsGreatest {n | a.take n = b.take n ∧ IsBoundary a n ∧
      IsBoundary b n} (sharedPrefixLength a b) ∧
    sharedPrefixLength a b = sharedPrefixLength b a ∧
    (isValid a → isValid b → ∃ cs ds common : List Char, a = encode cs ∧ b = encode ds ∧
      a.take (sharedPrefixLength a b) = encode common ∧ ∀ es, es <+: common ↔
        es <+: cs ∧ es <+: ds) := by
  refine ⟨⟨⟨take_sharedPrefixLength a b, ?_, ?_⟩, ?_⟩, sharedPrefixLength_comm a b, ?_⟩
  · exact isBoundary_sharedPrefixLength_left a b
  · exact isBoundary_sharedPrefixLength_right a b
  · rintro n ⟨htake, ha, hb⟩
    exact le_sharedPrefixLength ha hb (le_agreement_of_take_eq htake ha.le_length)
  · intro ha hb
    obtain ⟨common, hcommon⟩ := exists_eq_encode_of_isValid (isValid_shared ha b)
    obtain ⟨cs, rfl⟩ := exists_eq_encode_of_isValid ha
    obtain ⟨ds, rfl⟩ := exists_eq_encode_of_isValid hb
    refine ⟨cs, ds, common, rfl, rfl, hcommon, fun es => ?_⟩
    rw [← encode_prefix_encode_iff, ← hcommon, prefix_shared_iff ha hb (isValid_encode es),
      encode_prefix_encode_iff, encode_prefix_encode_iff]

-- Both emoji begin with the same three bytes.
example : sharedPrefixLength (.ofString "/😀x") (.ofString "/😁x") = 1 := by decide +kernel

/-! ## Nested texts -/

theorem shared_eq_left (ha : isValid a) (hb : isValid b) (h : a <+: b) : shared a b = a :=
  (shared_prefix_left a b).sublist.antisymm
    ((prefix_shared_iff ha hb ha).2 ⟨List.prefix_refl a, h⟩).sublist

theorem shared_self (ha : isValid a) : shared a a = a :=
  shared_eq_left ha ha (List.prefix_refl a)

/-- What a text shares with a prefix of `b` is all of this prefix, or what the text shares with `b`.
-/
theorem shared_of_prefix (ha : isValid a) (hb : isValid b) (hc : isValid c) (h : c <+: b) :
    shared a c = c ∨ shared a c = shared a b := by
  rcases List.prefix_or_prefix_of_prefix h (shared_prefix_right a b) with hcb | hbc
  · left
    rw [shared_comm]
    exact shared_eq_left hc ha (hcb.trans (shared_prefix_left a b))
  · right
    refine (isShared_shared ha hc).unique ⟨isValid_shared ha b, shared_prefix_left a b, hbc, ?_⟩
    intro v hv hva hvc
    exact (prefix_shared_iff ha hb hv).2 ⟨hva, hvc.trans h⟩

theorem shared_append (hv : isValid v) (ha : isValid a) (hb : isValid b) :
    shared (v ++ a) (v ++ b) = v ++ shared a b := by
  have hva : isValid (v ++ a) := (isValid_append hv a).trans ha
  have hvb : isValid (v ++ b) := (isValid_append hv b).trans hb
  have hs := isValid_shared ha b
  symm
  rw [← isShared_iff hva hvb]
  refine ⟨by rwa [isValid_append hv], ?_, ?_, fun w hw hwa hwb => ?_⟩
  · exact (List.prefix_append_right_inj v).2 (shared_prefix_left a b)
  · exact (List.prefix_append_right_inj v).2 (shared_prefix_right a b)
  · rcases List.prefix_or_prefix_of_prefix hwa (List.prefix_append v a) with hwv | ⟨w, rfl⟩
    · exact hwv.trans (List.prefix_append v _)
    · rw [List.prefix_append_right_inj] at hwa hwb ⊢
      exact (prefix_shared_iff ha hb (isValid_of_append hv hw)).2 ⟨hwa, hwb⟩

/-! ## Keys -/

theorem shared_eq_nil (ha : isValid a) (h : leadKey a ≠ leadKey b) : shared a b = [] := by
  by_contra hne
  have hs := isValid_shared ha b
  apply h
  rw [← leadKey_eq_of_prefix hs hne (shared_prefix_left a b),
    ← leadKey_eq_of_prefix hs hne (shared_prefix_right a b)]

theorem leadKey_drop_ne (ha : isValid a) (hb : isValid b) (hla : sharedPrefixLength a b < a.length)
    (hlb : sharedPrefixLength a b < b.length) :
    leadKey (a.drop (sharedPrefixLength a b)) ≠ leadKey (b.drop (sharedPrefixLength a b)) := by
  intro hkey
  have ha' := isValid_drop ha (isBoundary_sharedPrefixLength_left a b)
  have hb' := isValid_drop hb (isBoundary_sharedPrefixLength_right a b)
  -- The rests share a sequence, so that the whole texts share more than they do.
  obtain ⟨q, hq, -, -, hlen⟩ :=
    exists_shared_sequence ha' hb' (by simpa using hla) (by simpa using hlb) hkey
  have hall := congrArg List.length (shared_append (isValid_shared ha b) ha' hb')
  rw [shared_append_drop_left, shared_append_drop_right, List.length_append, length_shared,
    length_shared] at hall
  have := List.length_pos_iff.2 hq.ne_nil
  omega

/-- A text has the key of one that begins with a scalar value if and only if it begins with this
scalar value, too. So the key of a text that begins with none, since its start is cut short,
overlong, a surrogate, out of range or malformed in another way, is the key of no text that begins
with one. Different numbers of bytes are never packed into one key, whether they are a scalar value
or not. -/
theorem leadKey_eq_iff_shares_char (ha : a ≠ []) (hb : b ≠ []) :
    (∀ c : Char, encode [c] <+: b → (leadKey a = leadKey b ↔ encode [c] <+: a)) ∧
    ((∀ c : Char, ¬ encode [c] <+: a) →
      ∀ c : Char, encode [c] <+: b → leadKey a ≠ leadKey b) ∧
    ((leadBytes a).length ≠ (leadBytes b).length → leadKey a ≠ leadKey b) := by
  have hiff : ∀ c : Char, encode [c] <+: b → (leadKey a = leadKey b ↔ encode [c] <+: a) := by
    rintro c ⟨r, rfl⟩
    rw [encode_singleton]
    exact leadKey_eq_append_iff (sequence_utf8EncodeChar c) ha r
  refine ⟨hiff, fun hnone c hc he => ?_, fun hlength he => ?_⟩
  · exact hnone c ((hiff c hc).1 he)
  · exact hlength (congrArg List.length ((leadKey_eq_iff ha hb).1 he))

/-- The first three bytes of an emoji, another text that begins with it, and an overlong form of the
byte 0, which is told apart from this byte. -/
theorem leadKey_eq_iff_shares_char_truncated :
    leadKey [0xF0, 0x9F, 0x98] ≠ leadKey (.ofString "😀/") ∧
      leadKey (.ofString "😀") = leadKey (.ofString "😀/") ∧
      leadKey [0xC0, 0x80] ≠ leadKey [0] := by
  have hb : Bytes.ofString "😀/" ≠ [] := by decide
  have hprefix : encode ['😀'] <+: Bytes.ofString "😀/" := by decide
  refine ⟨?_, ?_, ?_⟩
  · exact (leadKey_eq_iff_shares_char (by decide) hb).2.2 (by decide)
  · exact ((leadKey_eq_iff_shares_char (by decide) hb).1 '😀' hprefix).2 (by decide)
  · obtain ⟨hiff, -⟩ :=
      leadKey_eq_iff_shares_char (a := [0xC0, 0x80]) (b := [0]) (by decide) (by decide)
    exact mt (hiff (Char.ofNat 0) (by decide)).1 (by decide)

/-! ## Sets of texts -/

/-- The empty text, the texts of a set, and what any two of them share. -/
def branchTexts (texts : Finset Bytes) : Finset Bytes :=
  insert [] (texts ∪ Finset.image₂ shared texts texts)

def properPrefixes (texts : Finset Bytes) (w : Bytes) : Finset Bytes :=
  texts.filter fun v => v <+: w ∧ v ≠ w

variable {texts : Finset Bytes}

theorem mem_branchTexts_iff :
    w ∈ branchTexts texts ↔
      w = [] ∨ w ∈ texts ∨ ∃ a ∈ texts, ∃ b ∈ texts, w = shared a b := by
  simp only [branchTexts, Finset.mem_insert, Finset.mem_union, Finset.mem_image₂,
    eq_comm (a := w)]

theorem branchTexts_mono {texts' : Finset Bytes} (h : texts ⊆ texts') :
    branchTexts texts ⊆ branchTexts texts' :=
  Finset.insert_subset_insert _ (Finset.union_subset_union h (Finset.image₂_subset h h))

/-- What a text shares with one of `branchTexts` is again one of them, with the text taken in. -/
theorem shared_mem_branchTexts_insert (h : ∀ a ∈ texts, isValid a) (hv : isValid v)
    (ha : a ∈ branchTexts texts) : shared v a ∈ branchTexts (insert v texts) := by
  have hmem : ∀ b ∈ texts, shared v b ∈ branchTexts (insert v texts) := fun b hb =>
    mem_branchTexts_iff.2 (Or.inr (Or.inr ⟨v, Finset.mem_insert_self v texts, b,
      Finset.mem_insert_of_mem hb, rfl⟩))
  rcases mem_branchTexts_iff.1 ha with rfl | ha' | ⟨b, hb, c, hc, rfl⟩
  · rw [List.prefix_nil.1 (shared_prefix_right v [])]
    exact Finset.mem_insert_self [] _
  · exact hmem a ha'
  · rcases shared_of_prefix hv (h c hc) (isValid_shared (h b hb) c) (shared_prefix_right b c) with
      he | he
    · rw [he]
      exact branchTexts_mono (Finset.subset_insert v texts) ha
    · rw [he]
      exact hmem c hc

/-- With one more text there are this text and what it shares with those before. -/
theorem mem_branchTexts_insert_iff (h : ∀ a ∈ texts, isValid a) (hv : isValid v) :
    w ∈ branchTexts (insert v texts) ↔
      w ∈ branchTexts texts ∨ w = v ∨ ∃ a ∈ branchTexts texts, w = shared v a := by
  have hself : v ∈ branchTexts (insert v texts) :=
    mem_branchTexts_iff.2 (Or.inr (Or.inl (Finset.mem_insert_self v texts)))
  constructor
  · intro hw
    rcases mem_branchTexts_iff.1 hw with rfl | hw | ⟨a, ha, b, hb, rfl⟩
    · exact Or.inl (Finset.mem_insert_self [] _)
    · rcases Finset.mem_insert.1 hw with rfl | hw
      · exact Or.inr (Or.inl rfl)
      · exact Or.inl (mem_branchTexts_iff.2 (Or.inr (Or.inl hw)))
    · have hbranch : ∀ c ∈ texts, c ∈ branchTexts texts := fun c hc =>
        mem_branchTexts_iff.2 (Or.inr (Or.inl hc))
      rcases Finset.mem_insert.1 ha with rfl | ha' <;> rcases Finset.mem_insert.1 hb with rfl | hb'
      · exact Or.inr (Or.inl (shared_self hv))
      · exact Or.inr (Or.inr ⟨b, hbranch b hb', rfl⟩)
      · exact Or.inr (Or.inr ⟨a, hbranch a ha', shared_comm a b⟩)
      · exact Or.inl (mem_branchTexts_iff.2 (Or.inr (Or.inr ⟨a, ha', b, hb', rfl⟩)))
  · intro hw
    rcases hw with hw | rfl | ⟨a, ha, rfl⟩
    · exact branchTexts_mono (Finset.subset_insert v texts) hw
    · exact hself
    · exact shared_mem_branchTexts_insert h hv ha

end RouteTable.Utf8
