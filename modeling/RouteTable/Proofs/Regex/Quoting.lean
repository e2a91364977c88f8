import RouteTable.Regex.Parser
import RouteTable.Proofs.Utf8.Decoding
import RouteTable.Proofs.Regex.Lexing

/-!
# Quoted literals

* `Regex.quoteChar`: how a character is quoted
* `quote_encode`: quoting bytes quotes characters
* `cut?_quoted`: a quoted literal that closes a quoted text goes on as one
* `tokens?_quoteChar`: a quoted character is one token that stands for it
-/

namespace RouteTable.Regex

def quoteChar (c : Char) : List Char :=
  if c = '\x00' then ['\\', 'x', '0', '0']
  else if 0x80 ≤ c.toNat || CharClass.word.contains c.toNat then [c]
  else ['\\', c]

/-- What holds of the characters below 128 in turn holds of all ASCII characters. -/
theorem forall_ascii {p : Char → Prop} (h : ∀ n < 0x80, p (Char.ofNat n)) (c : Char)
    (hc : c.toNat < 0x80) : p c := by
  have := h c.toNat hc
  rwa [Char.ofNat_toNat] at this

/-! ## Bytes -/

theorem quote_append (a b : Bytes) : quote (a ++ b) = quote a ++ quote b :=
  List.flatMap_append

theorem le_of_mem_utf8EncodeChar {c : Char} (hc : 0x80 ≤ c.toNat) {b : UInt8}
    (hb : b ∈ String.utf8EncodeChar c) : 0x80 ≤ b.toNat := by
  have hv : c.val.toNat = c.toNat := rfl
  simp only [String.utf8EncodeChar, hv] at hb
  rw [if_neg (by omega)] at hb
  repeat' split at hb
  all_goals
    simp only [List.mem_cons, List.not_mem_nil, or_false] at hb
    rcases hb with rfl | rfl | rfl | rfl <;> rw [Utf8.toNat_ofNat (by omega)] <;> omega

theorem quote_eq_self {s : Bytes} (h : ∀ b ∈ s, 0x80 ≤ b.toNat) : quote s = s := by
  induction s with
  | nil => rfl
  | cons b s ih =>
    obtain ⟨hb, hs⟩ := List.forall_mem_cons.1 h
    have h₀ : b ≠ 0 := by
      rintro rfl
      exact absurd hb (by decide)
    have hle : 0x80 ≤ b := UInt8.le_iff_toNat_le.2 hb
    show (if b = 0 then _ else _) ++ quote s = _
    rw [if_neg h₀, if_pos (by simp [hle]), ih hs]
    rfl

theorem quote_utf8EncodeChar (c : Char) :
    quote (String.utf8EncodeChar c) = Utf8.encode (quoteChar c) := by
  by_cases hc : c.toNat < 0x80
  · revert hc c
    exact forall_ascii (by decide +kernel)
  · have hc : 0x80 ≤ c.toNat := by omega
    have h₀ : c ≠ '\x00' := by
      rintro rfl
      exact absurd hc (by decide)
    rw [quote_eq_self fun b => le_of_mem_utf8EncodeChar hc, quoteChar, if_neg h₀,
      if_pos (by simp [hc])]
    exact (List.append_nil _).symm

theorem quote_encode (cs : List Char) :
    quote (Utf8.encode cs) = Utf8.encode (cs.flatMap quoteChar) := by
  induction cs with
  | nil => rfl
  | cons c cs ih =>
    rw [Utf8.encode_cons, quote_append, ih, quote_utf8EncodeChar, List.flatMap_cons,
      Utf8.encode_append]

/-! ## Marks -/

/-- A quoted character closes a quoted text only if it is a backslash and an E follows. -/
theorem cut?_quoteChar_append {c : Char} {before after : List Char}
    (h : cut? ['\\', 'E'] (quoteChar c ++ w) = some (before, after)) :
    (∃ tail, cut? ['\\', 'E'] w = some (tail, after)) ∨ w = 'E' :: after := by
  rw [quoteChar] at h
  split at h
  · obtain ⟨tail, h, -⟩ : ∃ tail, cut? ['\\', 'E'] w = some (tail, after) ∧
        '\\' :: 'x' :: '0' :: '0' :: tail = before := by
      simpa [cut?] using h
    exact .inl ⟨tail, h⟩
  split at h
  · next hc =>
    have hne : '\\' ≠ c := by
      rintro rfl
      exact absurd hc (by decide)
    obtain ⟨tail, -, h⟩ := (cut?_cons_eq_some_iff (by simp [hne])).1 h
    exact .inl ⟨tail, h⟩
  · next hc =>
    have hne : 'E' ≠ c := by
      rintro rfl
      exact absurd (by decide) hc
    obtain ⟨_, -, h⟩ := (cut?_cons_eq_some_iff (by simp [hne])).1 h
    have h : cut? ['\\', 'E'] (c :: w) = _ := h
    by_cases hp : ['\\', 'E'].isPrefixOf (c :: w) = true
    · rw [cut?, if_pos hp] at h
      obtain ⟨-, rfl⟩ := Prod.mk.inj (Option.some.inj h)
      cases w with
      | nil => simp at hp
      | cons d w =>
        obtain ⟨-, rfl⟩ : '\\' = c ∧ 'E' = d := by simpa using hp
        exact .inr rfl
    · obtain ⟨tail, -, h⟩ := (cut?_cons_eq_some_iff hp).1 h
      exact .inl ⟨tail, h⟩

theorem quoteChar_append_eq_cons {c : Char} {v : List Char} (h : quoteChar c ++ v = 'E' :: w) :
    v = w := by
  rw [quoteChar] at h
  split at h
  · exact absurd (List.cons.inj h).1 (by decide)
  split at h
  · exact (List.cons.inj h).2
  · exact absurd (List.cons.inj h).1 (by decide)

/-- What follows a mark within a quoted literal is a quoted literal again. -/
theorem cut?_quoted {cs before after : List Char}
    (h : cut? ['\\', 'E'] (cs.flatMap quoteChar) = some (before, after)) :
    ∃ cs' : List Char, after = cs'.flatMap quoteChar := by
  induction cs generalizing before with
  | nil => exact nomatch h
  | cons c cs ih =>
    rw [List.flatMap_cons] at h
    rcases cut?_quoteChar_append h with ⟨tail, h⟩ | h
    · exact ih h
    · cases cs with
      | nil => exact nomatch h
      | cons d cs => exact ⟨cs, (quoteChar_append_eq_cons h).symm⟩

/-! ## Tokens -/

/-- Signs are neither word characters nor beyond ASCII. -/
theorem next?_cons_of_plain {c : Char} (hc : 0x80 ≤ c.toNat || CharClass.word.contains c.toNat)
    (w : List Char) : Token.next? (c :: w) = some (.literal c.toNat, w) := by
  have hne : ∀ {d : Char},
      (0x80 ≤ d.toNat || CharClass.word.contains d.toNat) = false → c ≠ d := by
    rintro d hd rfl
    exact absurd (hc.symm.trans hd) (by decide)
  have hs : sign? c = none := by
    fun_cases sign? c with
    | case6 => rfl
    | _ => exact absurd hc (by decide)
  have hr : repeatSign? c = none := by
    fun_cases repeatSign? c with
    | case4 => rfl
    | _ => exact absurd hc (by decide)
  rw [Token.next?, if_neg (hne (by decide)), if_neg (hne (by decide)), if_neg (hne (by decide)),
    if_neg (hne (by decide)), hs, hr]

theorem next?_backslash {c : Char} (hc : c.toNat < 0x80)
    (hw : CharClass.word.contains c.toNat = false)
    (w : List Char) : Token.next? ('\\' :: c :: w) = some (.literal c.toNat, w) := by
  have hne : ∀ {d : Char}, CharClass.word.contains d.toNat → c ≠ d := by
    rintro d hd rfl
    exact absurd (hw.symm.trans hd) (by decide)
  have hcls : classEscape? c = none := by
    fun_cases classEscape? c with
    | case7 => rfl
    | _ => exact absurd hw (by decide)
  have hascii : ∀ c : Char, c.toNat < 0x80 → CharClass.word.contains c.toNat = false →
      isOctalDigit c = false ∧ c.isAlphanum = false :=
    forall_ascii (by decide +kernel)
  obtain ⟨ho, ha⟩ := hascii c hc hw
  have hesc : escape? (c :: w) = some (c.toNat, w) := by
    rw [escape?.eq_9 _ _ (fun _ h => absurd h (hne (by decide)))
      (fun _ _ _ h => absurd h (hne (by decide)))
      (hne (by decide)) (hne (by decide)) (hne (by decide)) (hne (by decide)) (hne (by decide))
      (hne (by decide))]
    simp [ho, ha, hc]
  have hb : backslash? (c :: w) = some (.literal c.toNat, w) := by
    rw [backslash?, if_neg (hne (by decide)), if_neg (hne (by decide)), if_neg (hne (by decide)),
      if_neg (hne (by decide)), if_neg (hne (by decide)), if_neg (hne (by decide)),
      if_neg (hne (by decide)), hcls, hesc]
    rfl
  exact hb

/-- A quoted character is one token that stands for it. -/
theorem tokens?_quoteChar (c : Char) (w : List Char) :
    tokens? (quoteChar c ++ w) = (tokens? w).map (.literal c.toNat :: ·) := by
  unfold quoteChar
  split
  · next hc =>
    subst hc
    rw [List.cons_append, tokens?_cons]
    rfl
  split
  · next hc =>
    rw [List.cons_append, tokens?_cons, List.nil_append, next?_cons_of_plain hc]
    rfl
  · next hc =>
    obtain ⟨hlt, hw⟩ : c.toNat < 0x80 ∧
      CharClass.word.contains c.toNat = false := by simpa using hc
    rw [List.cons_append, tokens?_cons, List.cons_append, List.nil_append, next?_backslash hlt hw]
    rfl

theorem tokens?_quoted (cs w : List Char) :
    tokens? (cs.flatMap quoteChar ++ w) =
      (tokens? w).map (cs.map (fun c => .literal c.toNat) ++ ·) := by
  induction cs with
  | nil => simp
  | cons c cs ih =>
    rw [List.flatMap_cons, List.append_assoc, tokens?_quoteChar, ih, Option.map_map]
    rfl

end RouteTable.Regex
