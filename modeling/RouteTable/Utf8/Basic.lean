/-!
# Bytes of UTF-8 texts

Texts are strings of bytes that need not be well-formed UTF-8. A sequence is one encoded scalar
value, of one to four bytes; its first byte tells its length.

* `Utf8.encode`: the UTF-8 form of a list of scalar values
* `Utf8.isValid`: whether a text is well-formed UTF-8
* `Utf8.Check`: the loop that finds this out, turn by turn
* `Utf8.sharedPrefixLength`: how far two texts agree, in whole sequences
* `Utf8.leadKey`: a word that tells the first sequences of texts apart
-/

namespace RouteTable

/-- A text as it arrives, in UTF-8 or not. -/
abbrev Bytes := List UInt8

def Utf8.encode (cs : List Char) : Bytes :=
  cs.flatMap String.utf8EncodeChar

def Bytes.ofString (s : String) : Bytes :=
  Utf8.encode s.toList

namespace Utf8

/-! ## Single bytes -/

/-- Whether a byte continues a sequence that an earlier byte started. -/
def isContinuation (b : UInt8) : Bool :=
  b &&& 0xC0 == 0x80

/-- The length of the sequence that starts with the byte `lead`, or 0 if none does. -/
def sequenceLength (lead : UInt8) : Nat :=
  if lead < 0x80 then 1
  else if lead < 0xC2 then 0
  else if lead < 0xE0 then 2
  else if lead < 0xF0 then 3
  else if lead < 0xF5 then 4
  else 0

/-- Whether `second` may follow `lead` in a sequence of three or four bytes. Some continuation bytes
are refused, since they would give an overlong form, a surrogate or a value above U+10FFFF. -/
def allowsSecond (lead second : UInt8) : Bool :=
  isContinuation second && !(lead == 0xE0 && second < 0xA0) && !(lead == 0xED && 0x9F < second) &&
    !(lead == 0xF0 && second < 0x90) && !(lead == 0xF4 && 0x8F < second)

/-! ## Validity -/

def isValid : Bytes → Bool
  | [] => true
  | lead :: rest =>
    match sequenceLength lead, rest with
    | 1, rest => isValid rest
    | 2, b₁ :: rest => isContinuation b₁ && isValid rest
    | 3, b₁ :: b₂ :: rest => allowsSecond lead b₁ && isContinuation b₂ && isValid rest
    | 4, b₁ :: b₂ :: b₃ :: rest =>
      allowsSecond lead b₁ && isContinuation b₂ && isContinuation b₃ && isValid rest
    | _, _ => false

/-! ### The loop that checks a text -/

/-- The loop on its way. -/
inductive Check where
  /-- The next sequence is read at the given position. -/
  | going (pos : Nat)
  | done (answer : Bool)
  /-- A byte was read that the text does not have. -/
  | outside
  deriving DecidableEq, Repr

namespace Check

/-- Whether each of `n` bytes, from the given position on, continues a sequence. None is read behind
one that does not. -/
def continues? (s : Bytes) (pos : Nat) : Nat → Option Bool
  | 0 => some true
  | n + 1 =>
    match s[pos]? with
    | none => none
    | some b => if isContinuation b then continues? s (pos + 1) n else some false

/-- Whether the byte at the given position may be the second one behind `lead`, which matters in
sequences of three or four bytes only. -/
def secondFits? (s : Bytes) (pos : Nat) (lead : UInt8) : Option Bool :=
  if 2 < sequenceLength lead then s[pos]?.map (allowsSecond lead) else some true

def turn (s : Bytes) : Check → Check
  | going pos =>
    if pos < s.length then
      match s[pos]? with
      | none => outside
      | some lead =>
        let n := sequenceLength lead
        if n = 0 ∨ s.length < pos + n then done false
        else
          match continues? s (pos + 1) (n - 1) with
          | none => outside
          | some false => done false
          | some true =>
            match secondFits? s (pos + 1) lead with
            | none => outside
            | some false => done false
            | some true => going (pos + n)
    else done true
  | check => check

end Check

/-! ## Scalar values -/

/-- The number of scalar values in a well-formed text: each has one byte that continues no other. -/
def scalarCount (s : Bytes) : Nat :=
  s.countP (!isContinuation ·)

/-! ## Boundaries -/

/-- The largest boundary of `s` that is not beyond `pos`. Both ends of the text are boundaries, and
so is every position whose byte continues no sequence. -/
def floorBoundary (s : Bytes) (pos : Nat) : Nat :=
  if pos < s.length then pos - ((s.take (pos + 1)).reverse.takeWhile isContinuation).length
  else pos

/-- The number of leading bytes on which two texts agree. -/
def agreement : Bytes → Bytes → Nat
  | a :: as, b :: bs => if a = b then agreement as bs + 1 else 0
  | _, _ => 0

/-- The length of the longest common prefix of two texts that ends on a boundary of both. -/
def sharedPrefixLength (a b : Bytes) : Nat :=
  let n := agreement a b
  min (floorBoundary a n) (floorBoundary b n)

/-! ## Keys -/

/-- The bytes of the first sequence of a text, packed into one word with the last byte lowest. A
byte that starts no sequence stands for itself, and a sequence that the end of the text cuts short
is packed as far as it goes. -/
def leadKey (s : Bytes) : UInt32 :=
  match s with
  | [] => 0
  | lead :: _ =>
    (s.take (max 1 (sequenceLength lead))).foldl (fun key b => key <<< 8 ||| b.toUInt32) 0

end Utf8

end RouteTable
