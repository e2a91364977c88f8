import RouteTable.Proofs.Pattern.Expression
import RouteTable.Proofs.Pattern.Spelling

/-!
# Reading what was spelled

A pattern that was put together from segments is spelled by a text, and this text is read into the
same segments if and only if the braces of the rules are balanced, as far as the reader tells: it
counts braces and leaves out what follows a backslash, and knows nothing about regular expressions.

* `Variable.closesBraces`: the braces of a rule are balanced
* `Variable.body?_append_iff`: a declaration ends behind its text if the braces of the text are
  balanced
* `Segment.scans_spellLiteral_iff`: spelled literals are read as they are
* `Segment.scans_flatMap_spell_iff`: a spelled row is read into itself if its rules are balanced
* `Segment.isValid_flatMap_spell_iff`: a spelled row is in UTF-8 if its literals and declarations
  are
* `Pattern.parse_source_of_compile_iff`: so is the text of a pattern that was put together from
  segments
-/

namespace RouteTable

/-! ## Balanced braces -/

namespace Variable

/-- The number of braces that are open after a text in front of which `depth` of them are, unless
one is closed too many or the text ends with a backslash that has no byte to take the meaning from.
-/
def openBraces? (depth : Nat) : Bytes → Option Nat
  | [] => some depth
  | b :: s =>
    if b = Byte.closeBrace then
      match depth with
      | 0 => none
      | depth + 1 => openBraces? depth s
    else if b = Byte.openBrace then openBraces? (depth + 1) s
    else if b = Byte.backslash then
      match s with
      | [] => none
      | _ :: s => openBraces? depth s
    else openBraces? depth s

theorem openBraces?_openBrace (depth : Nat) (s : Bytes) :
    openBraces? depth (Byte.openBrace :: s) = openBraces? (depth + 1) s := by
  rw [openBraces?.eq_def]
  rfl

theorem openBraces?_closeBrace (depth : Nat) (s : Bytes) :
    openBraces? (depth + 1) (Byte.closeBrace :: s) = openBraces? depth s := by
  rw [openBraces?.eq_def]
  rfl

theorem openBraces?_backslash (depth : Nat) (c : UInt8) (s : Bytes) :
    openBraces? depth (Byte.backslash :: c :: s) = openBraces? depth s := rfl

theorem openBraces?_of_ne {b : UInt8} (h₁ : b ≠ Byte.closeBrace) (h₂ : b ≠ Byte.openBrace)
    (h₃ : b ≠ Byte.backslash) (depth : Nat) (s : Bytes) :
    openBraces? depth (b :: s) = openBraces? depth s := by
  rw [openBraces?.eq_def]
  dsimp only
  rw [if_neg h₁, if_neg h₂, if_neg h₃]

def closesBraces (v : Variable) : Bool :=
  openBraces? 0 v.rule == some 0

theorem body?_zero_closeBrace (s : Bytes) : body? 0 (Byte.closeBrace :: s) = some ([], s) := by
  rw [body?.eq_def]
  rfl

theorem body?_succ_closeBrace (depth : Nat) (s : Bytes) :
    body? (depth + 1) (Byte.closeBrace :: s) = extendBody [Byte.closeBrace] (body? depth s) := by
  rw [body?.eq_def]
  rfl

theorem body?_openBrace (depth : Nat) (s : Bytes) :
    body? depth (Byte.openBrace :: s) = extendBody [Byte.openBrace] (body? (depth + 1) s) := by
  rw [body?.eq_def]
  rfl

theorem body?_backslash (depth : Nat) (c : UInt8) (s : Bytes) :
    body? depth (Byte.backslash :: c :: s) = extendBody [Byte.backslash, c] (body? depth s) := rfl

theorem body?_of_ne {b : UInt8} (h₁ : b ≠ Byte.closeBrace) (h₂ : b ≠ Byte.openBrace)
    (h₃ : b ≠ Byte.backslash) (depth : Nat) (s : Bytes) :
    body? depth (b :: s) = extendBody [b] (body? depth s) := by
  rw [body?.eq_def]
  dsimp only
  rw [if_neg h₁, if_neg h₂, if_neg h₃]

theorem extendBody_eq_some_append_iff {read body rest : Bytes} {o : Option (Bytes × Bytes)} :
    extendBody read o = some (read ++ body, rest) ↔ o = some (body, rest) := by
  rw [extendBody_eq_some]
  constructor
  · rintro ⟨tail, rfl, he⟩
    rw [List.append_cancel_left he]
  · rintro rfl
    exact ⟨body, rfl, rfl⟩

/-- A declaration ends behind its text if the braces of the text are balanced. -/
theorem body?_append_iff {depth : Nat} {s rest : Bytes} :
    body? depth (s ++ Byte.closeBrace :: rest) = some (s, rest) ↔
      openBraces? depth s = some 0 := by
  fun_induction openBraces? depth s with
  | case1 depth =>
    cases depth with
    | zero => exact iff_of_true (body?_zero_closeBrace rest) rfl
    | succ depth =>
      rw [List.nil_append, body?_succ_closeBrace, extendBody_eq_some]
      simp
  | case2 s =>
    rw [List.cons_append, body?_zero_closeBrace]
    simp
  | case3 depth s ih =>
    rw [List.cons_append, body?_succ_closeBrace]
    exact extendBody_eq_some_append_iff.trans ih
  | case4 depth s _ ih =>
    rw [List.cons_append, body?_openBrace]
    exact extendBody_eq_some_append_iff.trans ih
  | case5 depth =>
    rw [List.cons_append, List.nil_append, body?_backslash, extendBody_eq_some]
    simp
  | case6 depth c s _ _ ih =>
    rw [List.cons_append, List.cons_append, body?_backslash]
    exact extendBody_eq_some_append_iff.trans ih
  | case7 depth b s h₁ h₂ h₃ ih =>
    rw [List.cons_append, body?_of_ne h₁ h₂ h₃]
    exact extendBody_eq_some_append_iff.trans ih

/-! ## Names -/

/-- The bytes of a name have no meaning of their own in a declaration. -/
theorem ne_of_mem_name {name : Bytes} (h : isName name) {b : UInt8} (hb : b ∈ name) :
    b ≠ Byte.closeBrace ∧ b ≠ Byte.openBrace ∧ b ≠ Byte.backslash ∧
    b ≠ Byte.colon := by
  obtain ⟨cs, rfl, hcs⟩ : ∃ cs, name = Utf8.encode cs ∧ ∀ c ∈ cs, continuesName c := by
    rw [isName] at h
    split at h
    · next c cs hname =>
      rw [Bool.and_eq_true, List.all_eq_true] at h
      refine ⟨c :: cs, Utf8.decode?_eq_some_iff.1 hname, List.forall_mem_cons.2 ⟨?_, h.2⟩⟩
      rw [continuesName, h.1, Bool.true_or]
    · exact nomatch h
  obtain ⟨c, hc, hb⟩ := List.mem_flatMap.1 hb
  have hc := hcs c hc
  by_cases hlt : c.toNat < 0x80
  · have hascii : ∀ c : Char, c.toNat < 0x80 → continuesName c →
        (String.utf8EncodeChar c).all fun b =>
        b != Byte.closeBrace && b != Byte.openBrace && b != Byte.backslash && b != Byte.colon :=
      Regex.forall_ascii (by decide +kernel)
    simpa [and_assoc] using List.all_eq_true.1 (hascii c hlt hc) b hb
  · have hle := Regex.le_of_mem_utf8EncodeChar (by omega) hb
    refine ⟨?_, ?_, ?_, ?_⟩ <;>
    · rintro rfl
      exact absurd hle (by decide)

/-- Bytes without a meaning do not change the number of open braces. -/
theorem openBraces?_append {name : Bytes}
    (h : ∀ b ∈ name, b ≠ Byte.closeBrace ∧ b ≠ Byte.openBrace ∧ b ≠ Byte.backslash)
    (depth : Nat) (s : Bytes) : openBraces? depth (name ++ s) = openBraces? depth s := by
  induction name with
  | nil => rfl
  | cons b name ih =>
    obtain ⟨⟨h₁, h₂, h₃⟩, h⟩ := List.forall_mem_cons.1 h
    rw [List.cons_append, openBraces?_of_ne h₁ h₂ h₃, ih h]

theorem openBraces?_body_iff {v : Variable} (hn : isName v.name) :
    openBraces? 0 v.body = some 0 ↔ v.isDefault ∨ v.closesBraces := by
  have hname : ∀ b ∈ v.name, b ≠ Byte.closeBrace ∧ b ≠ Byte.openBrace ∧ b ≠ Byte.backslash :=
    fun b hb =>
      ⟨(ne_of_mem_name hn hb).1, (ne_of_mem_name hn hb).2.1, (ne_of_mem_name hn hb).2.2.1⟩
  rw [body, openBraces?_append hname, closesBraces, beq_iff_eq]
  cases v.isDefault with
  | true => simp [openBraces?]
  | false =>
    have hcolon : openBraces? 0 (Byte.colon :: v.rule) = openBraces? 0 v.rule :=
      openBraces?_of_ne (by decide) (by decide) (by decide) 0 v.rule
    simp [hcolon]

theorem ofBody_of_notMem {body : Bytes} (h : Byte.colon ∉ body) :
    ofBody body = ⟨body, defaultRule, true⟩ := by
  have hbody : ∀ b ∈ body, decide (b ≠ Byte.colon) = true :=
    fun b hb => decide_eq_true fun he => h (he ▸ hb)
  have hdrop : body.dropWhile (fun b => decide (b ≠ Byte.colon)) = [] :=
    List.dropWhile_eq_nil_iff.2 hbody
  rw [ofBody, hdrop]

/-- The first colon of a declaration is between the name and the rule. -/
theorem ofBody_append_colon {name : Bytes} (h : Byte.colon ∉ name) (rule : Bytes) :
    ofBody (name ++ Byte.colon :: rule) = ⟨name, rule, false⟩ := by
  have hname : ∀ b ∈ name, decide (b ≠ Byte.colon) = true :=
    fun b hb => decide_eq_true fun he => h (he ▸ hb)
  rw [ofBody, List.dropWhile_append_of_pos hname, List.takeWhile_append_of_pos hname]
  simp

theorem ofBody_body {v : Variable} (hn : isName v.name) (hd : v.normalize = v) :
    ofBody v.body = v := by
  obtain ⟨name, rule, isDefault⟩ := v
  have hcolon : Byte.colon ∉ name := fun hb => (ne_of_mem_name hn hb).2.2.2 rfl
  cases isDefault with
  | true =>
    obtain rfl : defaultRule = rule := congrArg Variable.rule hd
    show ofBody (name ++ []) = _
    rw [List.append_nil, ofBody_of_notMem hcolon]
  | false => exact ofBody_append_colon hcolon rule

end Variable

namespace Segment

/-! ## Reading spelled segments -/

variable {s rest text : Bytes} {segments l : List Segment}

theorem scans_openBrace_iff : Scans (Byte.openBrace :: s) l ↔ ∃ body rest segments,
    Variable.body? 0 s = some (body, rest) ∧ Scans rest segments ∧
    l = var (.ofBody body) :: segments := by
  constructor
  · intro h
    cases h with
    | var hbody h => exact ⟨_, _, _, hbody, h, rfl⟩
    | byte hb => exact absurd rfl hb
  · rintro ⟨body, rest, segments, hbody, h, rfl⟩
    exact .var hbody h

theorem scans_escaped_iff : Scans (Byte.backslash :: Byte.openBrace :: s) l ↔
    ∃ segments, Scans s segments ∧ l = prepend [Byte.openBrace] segments := by
  constructor
  · intro h
    cases h with
    | escaped h => exact ⟨_, h, rfl⟩
    | byte _ hs => exact absurd rfl (hs rfl)
  · rintro ⟨segments, h, rfl⟩
    exact .escaped h

theorem scans_byte_iff {b : UInt8} (hb : b ≠ Byte.openBrace)
    (hs : b = Byte.backslash → s.head? ≠ some Byte.openBrace) :
    Scans (b :: s) l ↔ ∃ segments, Scans s segments ∧ l = prepend [b] segments := by
  constructor
  · intro h
    cases h with
    | var => exact absurd rfl hb
    | escaped => exact absurd rfl (hs rfl)
    | byte _ _ h => exact ⟨_, h, rfl⟩
  · rintro ⟨segments, h, rfl⟩
    exact .byte hb hs h

theorem prepend_nil (segments : List Segment) : prepend [] segments = segments := by
  fun_cases prepend [] segments with
  | case3 _ _ h => exact absurd rfl h
  | _ => rfl

theorem prepend_prepend (a b : Bytes) (segments : List Segment) :
    prepend a (prepend b segments) = prepend (a ++ b) segments := by
  fun_cases prepend b segments with
  | case1 next segments => simp [prepend]
  | case2 => simp [*]
  | case3 _ hsegments hb =>
    rw [prepend, prepend.eq_def]
    split
    · exact absurd rfl (hsegments _ _)
    · rw [if_neg (fun h => hb (List.append_eq_nil_iff.1 h).2)]

theorem head?_spellLiteral_append (h : text ≠ []) (rest : Bytes) :
    (spellLiteral text ++ rest).head? ≠ some Byte.openBrace := by
  obtain ⟨b, text, rfl⟩ := List.exists_cons_of_ne_nil h
  by_cases hb : b = Byte.openBrace
  · subst hb
    simp [spellLiteral, show Byte.backslash ≠ Byte.openBrace by decide]
  · simp [spellLiteral, hb]

/-- Spelled literals are read as they are, unless a backslash at their end gets into the way of an
opening brace. -/
theorem scans_spellLiteral_iff
    (h : rest.head? = some Byte.openBrace → text.getLast? ≠ some Byte.backslash) :
    Scans (spellLiteral text ++ rest) l ↔
      ∃ segments, Scans rest segments ∧ l = prepend text segments := by
  induction text generalizing l with
  | nil => simp [spellLiteral, prepend_nil]
  | cons b text ih =>
    have htext : rest.head? = some Byte.openBrace → text.getLast? ≠ some Byte.backslash := by
      intro hr ht
      apply h hr
      rw [List.getLast?_cons, ht]
      rfl
    have hcons : (∃ segments, Scans (spellLiteral text ++ rest) segments ∧
      l = prepend [b] segments) ↔
        ∃ segments, Scans rest segments ∧ l = prepend (b :: text) segments := by
      constructor
      · rintro ⟨read, hread, rfl⟩
        obtain ⟨segments, hs, rfl⟩ := (ih htext).1 hread
        exact ⟨segments, hs, prepend_prepend [b] text segments⟩
      · rintro ⟨segments, hs, rfl⟩
        exact ⟨_, (ih htext).2 ⟨segments, hs, rfl⟩,
          (prepend_prepend [b] text segments).symm⟩
    rw [← hcons]
    by_cases hb : b = Byte.openBrace
    · subst hb
      exact scans_escaped_iff
    · have hspell : spellLiteral (b :: text) = b :: spellLiteral text := by simp [spellLiteral, hb]
      rw [hspell]
      refine scans_byte_iff hb fun hback => ?_
      by_cases ht : text = []
      · subst ht
        exact fun hr => h hr (congrArg some hback)
      · exact head?_spellLiteral_append ht rest

/-- A declaration whose braces are balanced is read into its variable, and no other one is. -/
theorem scans_spell_var_iff {v : Variable} (hn : Variable.isName v.name) (hd : v.normalize = v) :
    Scans (v.spell ++ rest) (var v :: segments) ↔ (v.isDefault ∨ v.closesBraces) ∧
      Scans rest segments := by
  have hspell : v.spell ++ rest = Byte.openBrace :: (v.body ++ Byte.closeBrace :: rest) := by
    rw [Variable.spell_eq]
    simp
  rw [hspell, scans_openBrace_iff, ← Variable.openBraces?_body_iff hn]
  constructor
  · rintro ⟨body, rest', segments', hbody, hs, he⟩
    obtain ⟨hv, rfl⟩ := List.cons.inj he
    obtain rfl : v.body = body := by rw [Segment.var.inj hv, Variable.body_ofBody]
    obtain rfl : rest = rest' := by simpa using Variable.eq_of_body? hbody
    exact ⟨Variable.body?_append_iff.1 hbody, hs⟩
  · rintro ⟨hbraces, hs⟩
    exact ⟨v.body, rest, segments, Variable.body?_append_iff.2 hbraces,
      hs, by rw [Variable.ofBody_body hn hd]⟩

/-! ## Reading spelled rows -/

theorem prepend_of_isNormal (h : IsNormal (literal text :: segments)) :
    prepend text segments = literal text :: segments := by
  rw [prepend.eq_def]
  split
  · exact absurd rfl (h.2.1 _ _)
  · exact if_neg h.1

/-- The literal in front of a normal row is told from the row. -/
theorem eq_of_prepend_eq (h : IsNormal l) (ht : text ≠ [])
    (he : literal text :: segments = prepend text l) :
    segments = l := by
  match l, h with
  | literal next :: l, h =>
    rw [prepend] at he
    obtain ⟨hnext, -⟩ := List.cons.inj he
    exact absurd (by simpa using Segment.literal.inj hnext) h.1
  | [], _ | var v :: l, _ =>
    rw [prepend, if_neg ht] at he
    · exact (List.cons.inj he).2
    · simp

theorem backslashBeforeVariable_literal (h : IsNormal (literal text :: segments))
    (hb : backslashBeforeVariable (literal text :: segments) = false) :
    backslashBeforeVariable segments = false ∧
      ((segments.flatMap spell).head? = some Byte.openBrace →
        text.getLast? ≠ some Byte.backslash) := by
  match segments, h with
  | [], _ => exact ⟨rfl, fun hr => nomatch hr⟩
  | var v :: rest, _ =>
    rw [backslashBeforeVariable, Bool.or_eq_false_iff, beq_eq_false_iff_ne] at hb
    exact ⟨hb.2, fun _ => hb.1⟩
  | literal next :: rest, h => exact absurd rfl (h.2.1 next rest)

/-- A spelled row without a literal that ends with a backslash before a variable is read into itself
if and only if the braces of its rules are balanced. -/
theorem scans_flatMap_spell_iff (h : IsNormal segments)
    (hb : backslashBeforeVariable segments = false)
    (hn : ∀ v ∈ vars segments, Variable.isName v.name)
    (hd : ∀ v ∈ vars segments, v.normalize = v) :
    Scans (segments.flatMap spell) segments ↔
      ∀ v ∈ vars segments, v.isDefault ∨ v.closesBraces := by
  induction segments with
  | nil => exact iff_of_true .nil fun v hv => absurd hv List.not_mem_nil
  | cons segment segments ih =>
    cases segment with
    | literal text =>
      obtain ⟨hb, hlast⟩ := backslashBeforeVariable_literal h hb
      have ih := ih h.2.2 hb hn hd
      rw [List.flatMap_cons, spell, scans_spellLiteral_iff hlast]
      constructor
      · rintro ⟨read, hread, he⟩
        obtain rfl := eq_of_prepend_eq hread.isNormal h.1 he
        exact ih.1 hread
      · exact fun hv => ⟨segments, ih.2 hv, (prepend_of_isNormal h).symm⟩
    | var v =>
      obtain ⟨hnv, hn⟩ := List.forall_mem_cons.1 hn
      obtain ⟨hdv, hd⟩ := List.forall_mem_cons.1 hd
      have hb : backslashBeforeVariable segments = false := hb
      rw [List.flatMap_cons, spell, scans_spell_var_iff hnv hdv, ih h hb hn hd, vars,
        List.forall_mem_cons]

/-! ## Encoding -/

/-- The backslashes in front of opening braces have no influence on whether a text is in UTF-8,
whatever is in front of them. -/
theorem isValid_append_spellLiteral_iff {s text : Bytes} :
    Utf8.isValid (s ++ spellLiteral text) ↔ Utf8.isValid (s ++ text) := by
  induction text generalizing s with
  | nil => rfl
  | cons b text ih =>
    by_cases hb : b = Byte.openBrace
    · subst hb
      have htext : Utf8.isValid (spellLiteral text) ↔ Utf8.isValid text := @ih []
      have hspell : spellLiteral (Byte.openBrace :: text) =
        Byte.backslash :: ([] ++ Byte.openBrace :: spellLiteral text) := rfl
      rw [hspell, Utf8.isValid_append_cons_iff (by decide),
        Utf8.isValid_append_cons_iff (by decide), Utf8.isValid_append_cons_iff (by decide), htext]
      exact and_congr_right fun _ => and_iff_right rfl
    · have hspell : spellLiteral (b :: text) = b :: spellLiteral text := by simp [spellLiteral, hb]
      rw [hspell, List.append_cons, ih, ← List.append_cons]

theorem isValid_spellLiteral_iff {text : Bytes} : Utf8.isValid (spellLiteral text) ↔
    Utf8.isValid text :=
  @isValid_append_spellLiteral_iff [] text

/-- A text may be cut on both sides of a declaration. -/
theorem isValid_append_spell_append_iff {v : Variable} {s t : Bytes} :
    Utf8.isValid (s ++ (v.spell ++ t)) ↔ Utf8.isValid s ∧ Utf8.isValid v.body ∧
      Utf8.isValid t := by
  have hspell : v.spell ++ t = Byte.openBrace :: (v.body ++ Byte.closeBrace :: t) := by
    rw [Variable.spell_eq]
    simp
  rw [hspell, Utf8.isValid_append_cons_iff (by decide), Utf8.isValid_append_cons_iff (by decide)]

/-- A text in UTF-8 is cut in front of the rule of a declaration, too. -/
theorem isValid_body_iff {v : Variable} :
    Utf8.isValid v.body ↔ Utf8.isValid v.name ∧ (v.isDefault ∨ Utf8.isValid v.rule) := by
  rw [Variable.body]
  cases v.isDefault with
  | true => simp
  | false => simpa using Utf8.isValid_append_cons_iff (b := Byte.colon) (by decide)

/-- A text may be cut in front of a row that does not begin with a literal. -/
theorem isValid_append_flatMap_spell_iff {s : Bytes}
    (h : ∀ text rest, segments ≠ literal text :: rest) :
    Utf8.isValid (s ++ segments.flatMap spell) ↔
      Utf8.isValid s ∧ Utf8.isValid (segments.flatMap spell) := by
  match segments, h with
  | [], _ =>
    rw [List.flatMap_nil, List.append_nil]
    exact (and_iff_left rfl).symm
  | literal text :: rest, h => exact absurd rfl (h text rest)
  | var v :: rest, _ =>
    have hrow : Utf8.isValid (v.spell ++ rest.flatMap spell) ↔ _ :=
      @isValid_append_spell_append_iff v [] _
    rw [List.flatMap_cons, spell, isValid_append_spell_append_iff, hrow]
    exact and_congr_right fun _ => (and_iff_right rfl).symm

/-- The text that spells a normal row is in UTF-8 if and only if the literals and the declarations
are. -/
theorem isValid_flatMap_spell_iff (h : IsNormal segments) :
    Utf8.isValid (segments.flatMap spell) ↔
      (∀ text, literal text ∈ segments → Utf8.isValid text) ∧
      ∀ v ∈ vars segments, Utf8.isValid v.body := by
  induction segments with
  | nil => simp [vars, Utf8.isValid]
  | cons segment segments ih =>
    rw [List.flatMap_cons]
    cases segment with
    | literal text =>
      obtain ⟨-, hnext, h⟩ := h
      rw [spell, isValid_append_flatMap_spell_iff hnext, isValid_spellLiteral_iff, ih h]
      simp [vars, or_imp, forall_and, and_assoc]
    | var v =>
      have hrow : Utf8.isValid (v.spell ++ segments.flatMap spell) ↔ _ :=
        @isValid_append_spell_append_iff v [] _
      rw [spell, hrow, and_iff_right (show Utf8.isValid [] by rfl), ih h]
      simp [vars, and_left_comm]

theorem isValid_of_isName {name : Bytes} (h : Variable.isName name) : Utf8.isValid name := by
  rw [Variable.isName] at h
  rw [← Utf8.isSome_decode?]
  split at h
  · next hd => rw [hd, Option.isSome_some]
  · exact nomatch h

theorem isValid_rule_of_ofBytes? {v : Variable} {r : Regex} (h : Regex.ofBytes? v.rule = some r) :
    Utf8.isValid v.rule := by
  obtain ⟨cs, hd, -⟩ := Option.bind_eq_some_iff.1 h
  rw [← Utf8.isSome_decode?, hd, Option.isSome_some]

theorem isValid_flatMap_spell {names groups : List Bytes} {counts : List Nat}
    (h : validateWith RuleGroups.ofRule? names groups segments = .ok counts) :
    Utf8.isValid (segments.flatMap spell) := by
  induction segments generalizing names groups counts with
  | nil => rfl
  | cons segment segments ih =>
    rw [List.flatMap_cons]
    cases segment with
    | literal text =>
      obtain ⟨ht, h⟩ := validateWith_literal_eq_ok.1 h
      rw [spell, Utf8.isValid_append (isValid_spellLiteral_iff.2 ht)]
      exact ih h
    | var v =>
      obtain ⟨_, _, _, hn, hr, h, -⟩ := exists_ofBytes?_of_validateWith h
      have hbody : Utf8.isValid v.body :=
        isValid_body_iff.2 ⟨isValid_of_isName hn, .inr (isValid_rule_of_ofBytes? hr)⟩
      exact (@isValid_append_spell_append_iff v [] _).2 ⟨rfl, hbody, ih h⟩

/-! ## Normal variables -/

theorem vars_normalize (row : List Segment) :
    vars (normalize row) = (vars row).map Variable.normalize := by
  induction row with
  | nil => rfl
  | cons segment row ih =>
    cases segment with
    | literal text => rw [normalize, vars_prepend, ih, vars]
    | var v => rw [normalize, vars, vars, List.map_cons, ih]

theorem normalize_of_mem_vars {row : List Segment} :
    ∀ v ∈ vars (normalize row), v.normalize = v := by
  intro v hv
  rw [vars_normalize] at hv
  obtain ⟨w, -, rfl⟩ := List.mem_map.1 hv
  exact w.normalize_normalize

end Segment

namespace Pattern

variable {row : List Segment} {p : Pattern}

theorem compile_eq_ok_iff : compile row = .ok p ↔
    Segment.backslashBeforeVariable (Segment.normalize row) = false ∧
      build ((Segment.normalize row).flatMap Segment.spell) (Segment.normalize row) = .ok p := by
  simp only [compile]
  split
  · next h => simp [h]
  · next h => simp [h]

/-- A pattern that was put together from segments is spelled by a text that is read into the same
segments if and only if the braces of all rules that are spelled are balanced. This assumes that
rules that are not in UTF-8 do not compile (`Regex.ofBytes?`), since a text that spells such a rule
is not read. -/
theorem parse_source_of_compile_iff (h : compile row = .ok p) :
    (∃ q, parse p.source = .ok q ∧ q.segments = p.segments) ↔
      ∀ v ∈ Segment.vars p.segments, v.isDefault ∨ v.closesBraces := by
  obtain ⟨hb, hbuild⟩ := compile_eq_ok_iff.1 h
  obtain ⟨counts, _, hvalid, -, rfl⟩ := build_eq_ok_iff.1 hbuild
  dsimp only
  rw [← Segment.scans_flatMap_spell_iff (Segment.isNormal_normalize row) hb
    (Segment.isName_of_validateWith hvalid) Segment.normalize_of_mem_vars]
  constructor
  · rintro ⟨q, hq, he⟩
    obtain ⟨segments, hscan, hq⟩ := parse_eq_ok_iff.1 hq
    obtain ⟨_, _, _, _, rfl⟩ := build_eq_ok_iff.1 hq
    obtain rfl : segments = Segment.normalize row := he
    exact (Segment.scan_eq_ok_iff.1 hscan).2
  · intro hs
    have hscan := Segment.scan_eq_ok_iff.2 ⟨Segment.isValid_flatMap_spell hvalid, hs⟩
    exact ⟨_, parse_eq_ok_iff.2 ⟨_, hscan, hbuild⟩, rfl⟩

/-- The braces of the rule are balanced, since what follows a backslash is left out. -/
theorem parse_source_of_compile_iff_balanced :
    let row := [Segment.literal (.ofString "/\x7b"),
      .var ⟨.ofString "x", .ofString "[0-9]\x7b2\x7d\\\x7d", false⟩,
      .var ⟨.ofString "y", [], true⟩]
    ∃ p, compile row = .ok p ∧ ∃ q, parse p.source = .ok q ∧ q.segments = p.segments := by
  intro row
  have hsegments : (compile row).toOption.map (·.segments) = some [.literal (.ofString "/\x7b"),
      .var ⟨.ofString "x", .ofString "[0-9]\x7b2\x7d\\\x7d", false⟩,
      .var ⟨.ofString "y", Variable.defaultRule, true⟩] := by
    decide +kernel
  obtain ⟨p, hp, hsegments⟩ := exists_of_toOption_map hsegments
  refine ⟨p, hp, (parse_source_of_compile_iff hp).2 ?_⟩
  rw [hsegments]
  decide +kernel

/-- A rule that closes a brace too many and opens another one. The text that spells the pattern
spells one with two variables, too, and is read as such. -/
theorem parse_source_of_compile_unbalanced :
    ∃ p q, compile [.var ⟨.ofString "x", .ofString "a\x7d\x7by:b", false⟩] = .ok p ∧
      parse p.source = .ok q ∧
      p.segments = [.var ⟨.ofString "x", .ofString "a\x7d\x7by:b", false⟩] ∧
      q.segments = [.var ⟨.ofString "x", .ofString "a", false⟩,
        .var ⟨.ofString "y", .ofString "b", false⟩] := by
  have hcompiled :
      (compile [.var ⟨.ofString "x", .ofString "a\x7d\x7by:b", false⟩]).toOption.map
      (fun p => (p.source, p.segments)) = some (.ofString "\x7bx:a\x7d\x7by:b\x7d",
        [.var ⟨.ofString "x", .ofString "a\x7d\x7by:b", false⟩]) := by
    decide +kernel
  have hread : (parse (.ofString "\x7bx:a\x7d\x7by:b\x7d")).toOption.map (·.segments) =
      some [.var ⟨.ofString "x", .ofString "a", false⟩,
        .var ⟨.ofString "y", .ofString "b", false⟩] := by
    decide +kernel
  obtain ⟨p, hp, he⟩ := exists_of_toOption_map hcompiled
  obtain ⟨hsource, hsegments⟩ := Prod.mk.inj he
  obtain ⟨q, hq, hq'⟩ := exists_of_toOption_map hread
  exact ⟨p, q, hp, hsource ▸ hq, hsegments, hq'⟩

end Pattern

end RouteTable
