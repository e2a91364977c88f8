import RouteTable.Proofs.Pattern.Braces

/-!
# The grammar of patterns

A pattern is a row of bytes, of opening braces that stand for themselves because a backslash is
directly in front of them, and of declarations in braces. The reader counts braces and looks one
byte ahead; the grammar nests them and looks one byte back.

* `Variable.Body`: what can stand between the braces of a declaration
* `Variable.body?_eq_some_iff`: the text of a declaration goes on to the closing brace that belongs
  to it
* `Piece.Reading`: a row of pieces reads a text
* `Piece.segments`: the segments that a row of pieces stands for
* `Piece.Reading.unique`: a text is read in one way at most
* `Segment.scans_iff_reading`: the segments of a text are those of its reading
* `Segment.scan_eq_ok_iff_reading`: which patterns are read, into which segments, and what is wrong
  with others
-/

namespace RouteTable

/-! ## Texts between braces -/

namespace Variable

/-- What can stand between the braces of a declaration: any byte with a backslash in front, other
bytes that are no braces, and such texts in braces. -/
inductive Body : Bytes → Prop
  | nil : Body []
  | escaped (c : UInt8) {s : Bytes} (h : Body s) : Body (Byte.backslash :: c :: s)
  | byte {b : UInt8} {s : Bytes} (hclose : b ≠ Byte.closeBrace) (hopen : b ≠ Byte.openBrace)
      (hback : b ≠ Byte.backslash) (h : Body s) : Body (b :: s)
  | nested {inner s : Bytes} (hinner : Body inner) (h : Body s) :
      Body (Byte.openBrace :: (inner ++ Byte.closeBrace :: s))

variable {depth : Nat} {s t : Bytes}

theorem Body.openBraces?_append (h : Body s) (depth : Nat) (t : Bytes) :
    openBraces? depth (s ++ t) = openBraces? depth t := by
  induction h generalizing depth t with
  | nil => rfl
  | escaped c _ ih => rw [List.cons_append, List.cons_append, openBraces?_backslash, ih]
  | byte hclose hopen hback _ ih => rw [List.cons_append, openBraces?_of_ne hclose hopen hback, ih]
  | nested _ _ ihinner ih =>
    rw [List.cons_append, openBraces?_openBrace, List.append_assoc, ihinner, List.cons_append,
      openBraces?_closeBrace, ih]

/-- The text closes `depth` braces one after the other, with texts between them that leave none
open. -/
def Closes : Nat → Bytes → Prop
  | 0, s => Body s
  | depth + 1, s => ∃ inner rest, s = inner ++ Byte.closeBrace :: rest ∧ Body inner ∧
    Closes depth rest

/-- What can stand in front of a text between braces can stand in front of one that closes some
more. -/
theorem Closes.append (h : Closes depth s) (hfront : ∀ {u}, Body u → Body (t ++ u)) :
    Closes depth (t ++ s) := by
  cases depth with
  | zero => exact hfront h
  | succ depth =>
    obtain ⟨inner, rest, rfl, hinner, hrest⟩ := h
    exact ⟨t ++ inner, rest, (List.append_assoc _ _ _).symm, hfront hinner, hrest⟩

theorem closes_of_openBraces? (h : openBraces? depth s = some 0) : Closes depth s := by
  fun_induction openBraces? depth s with
  | case1 depth =>
    obtain rfl := Option.some.inj h
    exact .nil
  | case2 => cases h
  | case3 s depth ih => exact ⟨[], s, rfl, .nil, ih h⟩
  | case4 depth s _ ih =>
    obtain ⟨inner, rest, rfl, hinner, hrest⟩ := ih h
    have := hrest.append (t := Byte.openBrace :: (inner ++ [Byte.closeBrace])) fun {u} hu => by
      simpa using Body.nested hinner hu
    simpa using this
  | case5 => cases h
  | case6 depth c s _ _ ih => exact (ih h).append (t := [Byte.backslash, c]) (.escaped c)
  | case7 depth b s hclose hopen hback ih =>
    exact (ih h).append (t := [b]) (.byte hclose hopen hback)

/-- Counting braces tells the texts that can stand between them. -/
theorem body_iff : Body s ↔ openBraces? 0 s = some 0 := by
  refine ⟨fun h => ?_, closes_of_openBraces?⟩
  have := h.openBraces?_append 0 []
  rwa [List.append_nil] at this

/-- The text of a declaration goes on to the closing brace that belongs to it. -/
theorem body?_eq_some_iff {body rest : Bytes} :
    body? 0 s = some (body, rest) ↔ s = body ++ Byte.closeBrace :: rest ∧ Body body := by
  constructor
  · intro h
    obtain rfl := eq_of_body? h
    exact ⟨rfl, body_iff.2 (body?_append_iff.1 h)⟩
  · rintro ⟨rfl, h⟩
    exact body?_append_iff.2 (body_iff.1 h)

/-- No two texts between braces begin the same text up to a closing brace. -/
theorem Body.append_closeBrace_inj {a b r s : Bytes} (ha : Body a) (hb : Body b)
    (h : a ++ Byte.closeBrace :: r = b ++ Byte.closeBrace :: s) : a = b ∧ r = s := by
  have hread : body? 0 (a ++ Byte.closeBrace :: r) = some (a, r) :=
    body?_eq_some_iff.2 ⟨rfl, ha⟩
  rw [h, body?_eq_some_iff.2 ⟨rfl, hb⟩, Option.some.injEq, Prod.mk.injEq] at hread
  exact ⟨hread.1.symm, hread.2.symm⟩

end Variable

/-! ## Pieces -/

inductive Piece where
  /-- A byte that is no opening brace. -/
  | byte (b : UInt8)
  /-- An opening brace that stands for itself. -/
  | brace
  /-- A declaration with the text between its braces. -/
  | declaration (body : Bytes)

namespace Piece

/-- The row of pieces reads the text, given the byte directly in front of it. An opening brace
stands for itself if this byte is a backslash, and begins a declaration if not. -/
inductive Reading : Option UInt8 → Bytes → List Piece → Prop
  | nil (before : Option UInt8) : Reading before [] []
  | byte {before : Option UInt8} {b : UInt8} {s : Bytes} {pieces : List Piece}
      (hb : b ≠ Byte.openBrace) (h : Reading (some b) s pieces) :
      Reading before (b :: s) (byte b :: pieces)
  | brace {s : Bytes} {pieces : List Piece} (h : Reading (some Byte.openBrace) s pieces) :
      Reading (some Byte.backslash) (Byte.openBrace :: s) (brace :: pieces)
  | declaration {before : Option UInt8} {body s : Bytes} {pieces : List Piece}
      (hbefore : before ≠ some Byte.backslash) (hbody : Variable.Body body)
      (h : Reading (some Byte.closeBrace) s pieces) :
      Reading before (Byte.openBrace :: (body ++ Byte.closeBrace :: s)) (declaration body :: pieces)

def isLiteral : Piece → Bool
  | byte _ => true
  | brace => true
  | declaration _ => false

/-- The text that a run of bytes and braces stands for: the byte in front of each brace, which is a
backslash, is dropped, and all others are kept. -/
def literalText : List Piece → Bytes
  | byte _ :: brace :: pieces => Byte.openBrace :: literalText pieces
  | byte b :: pieces => b :: literalText pieces
  | brace :: pieces => Byte.openBrace :: literalText pieces
  | declaration _ :: pieces => literalText pieces
  | [] => []

/-- The segments that a row of pieces stands for: a variable for each declaration, and one literal
for each of the longest runs of bytes and braces. -/
def segments : List Piece → List Segment
  | [] => []
  | declaration body :: pieces => .var (.ofBody body) :: segments pieces
  | piece :: pieces =>
    .literal (literalText (piece :: pieces.takeWhile isLiteral)) ::
      segments (pieces.dropWhile isLiteral)
termination_by pieces => pieces.length
decreasing_by
  · simp
  · have := (List.dropWhile_sublist (l := pieces) isLiteral).length_le
    simp only [List.length_cons]
    omega

variable {before : Option UInt8} {s text : Bytes} {pieces pieces' : List Piece}

/-! ## Segments of pieces -/

/-- A text in front of a row goes into the literal that the row begins with. -/
theorem prepend_segments (h : text ≠ []) (pieces : List Piece) :
    Segment.prepend text (segments pieces) =
      .literal (text ++ literalText (pieces.takeWhile isLiteral)) ::
      segments (pieces.dropWhile isLiteral) := by
  match pieces with
  | [] => simp [segments, Segment.prepend, literalText, h]
  | declaration body :: pieces => simp [segments, Segment.prepend, literalText, isLiteral, h]
  | byte b :: pieces =>
    simp [segments, Segment.prepend, isLiteral, List.takeWhile_cons, List.dropWhile_cons]
  | brace :: pieces =>
    simp [segments, Segment.prepend, isLiteral, List.takeWhile_cons, List.dropWhile_cons]

/-- A brace takes the byte in front of it away. -/
theorem segments_byte_brace (b : UInt8) (pieces : List Piece) :
    segments (byte b :: brace :: pieces) = Segment.prepend [Byte.openBrace] (segments pieces) := by
  rw [prepend_segments (List.cons_ne_nil _ _)]
  simp [segments, isLiteral, literalText, List.takeWhile_cons, List.dropWhile_cons]

theorem segments_byte (b : UInt8) (h : pieces.head? ≠ some brace) :
    segments (byte b :: pieces) = Segment.prepend [b] (segments pieces) := by
  rw [prepend_segments (List.cons_ne_nil _ _)]
  match pieces with
  | [] => simp [segments, literalText]
  | declaration body :: pieces => simp [segments, isLiteral, literalText]
  | byte c :: pieces => simp [segments, isLiteral, literalText, List.takeWhile_cons]
  | brace :: pieces => exact absurd rfl h

/-! ## Readings -/

namespace Reading

/-- A brace is what an opening brace with a backslash in front is read as. -/
theorem eq_brace_of_head? (h : Reading (some Byte.backslash) s pieces)
    (hs : s.head? = some Byte.openBrace) :
    ∃ s' pieces', s = Byte.openBrace :: s' ∧ pieces = Piece.brace :: pieces' := by
  cases h with
  | nil => exact nomatch hs
  | byte hb => exact absurd (Option.some.inj hs) hb
  | brace h => exact ⟨_, _, rfl, rfl⟩
  | declaration hbefore => exact absurd rfl hbefore

theorem unique (h : Reading before s pieces) (h' : Reading before s pieces') :
    pieces = pieces' := by
  induction h generalizing pieces' with
  | nil =>
    cases h'
    rfl
  | byte hb _ ih =>
    cases h' with
    | byte _ h' => rw [ih h']
    | brace | declaration => exact absurd rfl hb
  | brace _ ih =>
    cases h' with
    | byte hb => exact absurd rfl hb
    | brace h' => rw [ih h']
    | declaration hbefore => exact absurd rfl hbefore
  | @declaration before body s pieces hbefore hbody _ ih =>
    generalize ht : body ++ Byte.closeBrace :: s = t at h'
    cases h' with
    | byte hb => exact absurd rfl hb
    | brace => exact absurd rfl hbefore
    | declaration _ hbody' h' =>
      obtain ⟨rfl, rfl⟩ := hbody.append_closeBrace_inj hbody' ht
      rw [ih h']

/-- What a reading reads is read into its segments. A text that begins with an opening brace behind
a backslash is read as a part of what begins with this backslash. -/
theorem scans (h : Reading before s pieces) :
    ((before = some Byte.backslash → s.head? ≠ some Byte.openBrace) →
      Segment.Scans s (segments pieces)) ∧
      ∀ pieces', pieces = Piece.brace :: pieces' → Segment.Scans s.tail (segments pieces') := by
  induction h with
  | nil =>
    refine ⟨fun _ => ?_, nofun⟩
    rw [segments]
    exact .nil
  | @byte before b s pieces hb h ih =>
    refine ⟨fun _ => ?_, nofun⟩
    by_cases hescaped : b = Byte.backslash ∧ s.head? = some Byte.openBrace
    · obtain ⟨rfl, hs⟩ := hescaped
      obtain ⟨s, pieces, rfl, rfl⟩ := h.eq_brace_of_head? hs
      rw [segments_byte_brace]
      exact .escaped (ih.2 pieces rfl)
    · have hs : b = Byte.backslash → s.head? ≠ some Byte.openBrace :=
        fun he hs => hescaped ⟨he, hs⟩
      have hpieces : pieces.head? ≠ some Piece.brace := by
        intro hp
        cases h with
        | brace => exact hescaped ⟨rfl, rfl⟩
        | nil | byte | declaration => exact nomatch hp
      rw [segments_byte b hpieces]
      exact .byte hb hs (ih.1 fun he => hs (Option.some.inj he))
  | brace _ ih =>
    refine ⟨fun hs => absurd rfl (hs rfl), fun pieces' hp => ?_⟩
    obtain rfl := (List.cons.inj hp).2
    exact ih.1 fun he => absurd he (by decide)
  | declaration _ hbody _ ih =>
    refine ⟨fun _ => ?_, nofun⟩
    rw [segments]
    exact .var (Variable.body?_eq_some_iff.2 ⟨rfl, hbody⟩) (ih.1 fun he =>
      absurd he (by decide))

end Reading

end Piece

namespace Segment

open Piece (Reading)

variable {s : Bytes} {l : List Segment}

/-- What is read has a reading, also behind another byte that is no backslash in front of an opening
brace. -/
theorem Scans.exists_reading (h : Scans s l) {before : Option UInt8}
    (hbefore : before = some Byte.backslash → s.head? ≠ some Byte.openBrace) :
    ∃ pieces, Reading before s pieces ∧ Piece.segments pieces = l := by
  induction h generalizing before with
  | nil => exact ⟨[], .nil before, by rw [Piece.segments]⟩
  | @var s body rest l hread _ ih =>
    obtain ⟨rfl, hbody⟩ := Variable.body?_eq_some_iff.1 hread
    obtain ⟨pieces, hpieces, rfl⟩ := @ih (some Byte.closeBrace) fun he => absurd he (by decide)
    exact ⟨.declaration body :: pieces, .declaration (fun he => hbefore he rfl) hbody hpieces,
      by rw [Piece.segments]⟩
  | escaped _ ih =>
    obtain ⟨pieces, hpieces, rfl⟩ := @ih (some Byte.openBrace) fun he => absurd he (by decide)
    exact ⟨.byte Byte.backslash :: .brace :: pieces, .byte (by decide) (.brace hpieces),
      Piece.segments_byte_brace _ _⟩
  | @byte b s l hb hs _ ih =>
    obtain ⟨pieces, hpieces, rfl⟩ := @ih (some b) fun he => hs (Option.some.inj he)
    refine ⟨.byte b :: pieces, .byte hb hpieces, Piece.segments_byte b fun hp => ?_⟩
    cases hpieces with
    | brace => exact hs rfl rfl
    | nil | byte | declaration => exact nomatch hp

theorem scans_iff_reading :
    Scans s l ↔ ∃ pieces, Reading none s pieces ∧ Piece.segments pieces = l := by
  constructor
  · exact fun h => h.exists_reading nofun
  · rintro ⟨pieces, h, rfl⟩
    exact h.scans.1 nofun

/-! ## Faults -/

/-- The text has an opening brace that is closed by no brace behind it. What is in front of it has a
reading, and no backslash at its end. -/
structure Unclosed (s front rest : Bytes) : Prop where
  eq_append : s = front ++ Byte.openBrace :: rest
  read : ∃ pieces, Reading none front pieces
  getLast?_ne : front.getLast? ≠ some Byte.backslash
  not_body : ∀ body rest', rest = body ++ Byte.closeBrace :: rest' → ¬ Variable.Body body

theorem Unclosed.append {front rest t : Bytes} (h : Unclosed s front rest)
    (hlast : front = [] → t.getLast? ≠ some Byte.backslash)
    (ht : ∀ {l}, Scans front l → ∃ l', Scans (t ++ front) l') :
    Unclosed (t ++ s) (t ++ front) rest where
  eq_append := by rw [h.eq_append, List.append_assoc]
  read := by
    obtain ⟨pieces, hpieces⟩ := h.read
    obtain ⟨l, hl⟩ := ht (scans_iff_reading.2 ⟨pieces, hpieces, rfl⟩)
    obtain ⟨pieces', hpieces', -⟩ := scans_iff_reading.1 hl
    exact ⟨pieces', hpieces'⟩
  getLast?_ne := by
    rw [List.getLast?_append]
    cases hfront : front.getLast? with
    | none => exact hlast (List.getLast?_eq_none_iff.1 hfront)
    | some b =>
      rw [Option.some_or, ← hfront]
      exact h.getLast?_ne
  not_body := h.not_body

/-- A text that is not read has an opening brace that no brace closes, and its index is told. -/
theorem exists_unclosed_of_scanFrom {index : Nat} {fault : PatternFault}
    (h : scanFrom index s = .error fault) :
    ∃ front rest, Unclosed s front rest ∧ fault = .unclosedVariable (index + front.length) := by
  fun_induction scanFrom index s with
  | case1 => cases h
  | case2 index s hread =>
    refine ⟨[], s, ⟨rfl, ⟨[], .nil none⟩, by simp, fun body rest' hs hbody => ?_⟩,
      (Except.error.inj h).symm⟩
    rw [Variable.body?_eq_some_iff.2 ⟨hs, hbody⟩] at hread
    cases hread
  | case3 index s body rest hread ih =>
    obtain ⟨front, behind, hunclosed, rfl⟩ := ih (bind_pure_eq_error h)
    obtain ⟨rfl, hbody⟩ := Variable.body?_eq_some_iff.1 hread
    have hwhole := hunclosed.append (t := Byte.openBrace :: (body ++ [Byte.closeBrace]))
      (fun _ => by
        rw [← List.cons_append, List.getLast?_concat]
        decide)
      (fun hl =>
        ⟨_, by simpa using Scans.var (Variable.body?_eq_some_iff.2 ⟨rfl, hbody⟩) hl⟩)
    refine ⟨_, behind, by simpa using hwhole, congrArg PatternFault.unclosedVariable ?_⟩
    simp only [List.length_append, List.length_cons]
    omega
  | case4 index b hb c s hbc ih =>
    obtain ⟨front, behind, hunclosed, rfl⟩ := ih (bind_pure_eq_error h)
    obtain ⟨rfl, rfl⟩ := hbc
    refine ⟨_, behind,
      hunclosed.append (t := [Byte.backslash, Byte.openBrace]) (fun _ => by decide)
        fun hl => ⟨_, .escaped hl⟩, ?_⟩
    simp only [List.length_append, List.length_cons, List.length_nil]
    exact congrArg PatternFault.unclosedVariable (by omega)
  | case5 index b hb c s hbc ih =>
    obtain ⟨front, behind, hunclosed, rfl⟩ := ih (bind_pure_eq_error h)
    have hs := hunclosed.eq_append
    refine ⟨_, behind, hunclosed.append (t := [b]) (fun hfront => ?_) fun hl =>
      ⟨_, .byte hb ?_ hl⟩, ?_⟩
    · -- The byte behind is the opening brace itself.
      rw [hfront] at hs
      rw [List.getLast?_singleton]
      exact fun he => hbc ⟨Option.some.inj he, (List.cons.inj hs).1⟩
    · intro he hfront
      obtain ⟨_, rfl⟩ := List.head?_eq_some_iff.1 hfront
      exact hbc ⟨he, (List.cons.inj hs).1⟩
    · simp only [List.length_append, List.length_cons, List.length_nil]
      exact congrArg PatternFault.unclosedVariable (by omega)
  | case6 => cases h

/-! ## Patterns -/

/-- A pattern is read if and only if it is in UTF-8 and a row of pieces reads it: bytes that are no
opening braces, opening braces with a backslash directly in front, and declarations with a text
between their braces and no backslash in front. Only one row does, and the segments are those that
it stands for, so that no literal is empty or follows another one. A declaration gives its variable
a rule behind its first colon, if it has one. What is wrong with a pattern that is not read is its
encoding, or an opening brace that is not closed. -/
theorem scan_eq_ok_iff_reading (pattern : Bytes) :
    (∀ l, scan pattern = .ok l ↔
      Utf8.isValid pattern ∧ ∃ pieces, Reading none pattern pieces ∧
        Piece.segments pieces = l) ∧
    (∀ pieces pieces', Reading none pattern pieces → Reading none pattern pieces' →
      pieces = pieces') ∧
    (∀ l, scan pattern = .ok l → IsNormal l) ∧
    (∀ body, Byte.colon ∉ body →
      Variable.ofBody body = ⟨body, Bytes.ofString "(?s:.+)", true⟩) ∧
    (∀ name rule, Byte.colon ∉ name →
      Variable.ofBody (name ++ Byte.colon :: rule) = ⟨name, rule, false⟩) ∧
    ∀ e, scan pattern = .error e →
      e = ⟨pattern, .notUtf8⟩ ∧ Utf8.isValid pattern = false ∨
        ∃ front rest, Unclosed pattern front rest ∧
          e = ⟨pattern, .unclosedVariable front.length⟩ := by
  refine ⟨fun l => ?_, fun _ _ h h' => h.unique h', fun _ => isNormal_scan,
    fun _ => Variable.ofBody_of_notMem,
    fun _ rule h => Variable.ofBody_append_colon h rule, fun e h => ?_⟩
  · rw [scan_eq_ok_iff, scans_iff_reading]
  · rw [scan] at h
    split at h
    · cases hscan : scanFrom 0 pattern with
      | ok l =>
        rw [hscan] at h
        cases h
      | error fault =>
        rw [hscan] at h
        obtain ⟨front, rest, hunclosed, rfl⟩ := exists_unclosed_of_scanFrom hscan
        obtain rfl := Except.error.inj h
        exact .inr ⟨front, rest, hunclosed, by rw [Nat.zero_add]⟩
    · next hvalid =>
      obtain rfl := Except.error.inj h
      exact .inl ⟨rfl, Bool.eq_false_iff.2 hvalid⟩

-- The backslash in front of an opening brace is dropped, and that within a declaration is kept.
example : (scan (.ofString "a\\\x7bb\x7bx:c\\\x7d\x7d")).toOption =
    some [literal (.ofString "a\x7bb"), var ⟨.ofString "x", .ofString "c\\\x7d", false⟩] := by
  decide +kernel

end Segment

end RouteTable
