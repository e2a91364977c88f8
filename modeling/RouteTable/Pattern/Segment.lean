import RouteTable.Utf8.Basic

/-!
# Segments of path patterns

A pattern is a row of segments: literal text, and variables that stand for a part of the path.

* `Segment`: the segments
* `Segment.normalize`: the row of segments in which literals neither are empty nor follow each other
* `Segment.spell`: how a segment is written in a pattern
-/

namespace RouteTable

/-! ## Bytes with a meaning -/

namespace Byte

abbrev openBrace : UInt8 := 0x7B

abbrev closeBrace : UInt8 := 0x7D

abbrev backslash : UInt8 := 0x5C

abbrev colon : UInt8 := 0x3A

end Byte

/-! ## Variables -/

/-- A named part of a path. A default variable is one that was declared without a rule of its own.
-/
structure Variable where
  name : Bytes
  /-- The regular expression that the value matches as a whole. -/
  rule : Bytes
  isDefault : Bool
  deriving DecidableEq, Repr

namespace Variable

/-- The rule of a variable that was declared without one: any text but the empty one. -/
def defaultRule : Bytes :=
  Bytes.ofString "(?s:.+)"

/-- The variable with the rule that it has if it is a default one. -/
def normalize (v : Variable) : Variable :=
  if v.isDefault then { v with rule := defaultRule } else v

def spell (v : Variable) : Bytes :=
  let rule := if v.isDefault then [] else Byte.colon :: v.rule
  Byte.openBrace :: v.name ++ rule ++ [Byte.closeBrace]

end Variable

/-! ## Segments -/

inductive Segment where
  /-- Text that the path has as it stands. -/
  | literal (text : Bytes)
  | var (v : Variable)
  deriving DecidableEq, Repr

namespace Segment

def prepend (text : Bytes) : List Segment → List Segment
  | literal next :: segments => literal (text ++ next) :: segments
  | segments => if text = [] then segments else literal text :: segments

/-- The row of segments with the same meaning in which no literal is empty, no two literals follow
each other, and default variables have their rule. -/
def normalize : List Segment → List Segment
  | [] => []
  | literal text :: segments => prepend text (normalize segments)
  | var v :: segments => var v.normalize :: normalize segments

/-- How literal text is written in a pattern: with a backslash in front of each opening brace. -/
def spellLiteral (text : Bytes) : Bytes :=
  text.flatMap fun b => if b = Byte.openBrace then [Byte.backslash, b] else [b]

def spell : Segment → Bytes
  | literal text => spellLiteral text
  | var v => v.spell

/-- Whether some literal before a variable ends with a backslash, which no pattern can express: the
backslash would make the opening brace a literal one. -/
def backslashBeforeVariable : List Segment → Bool
  | literal text :: var v :: segments =>
    text.getLast? == some Byte.backslash || backslashBeforeVariable (var v :: segments)
  | _ :: segments => backslashBeforeVariable segments
  | [] => false

def vars : List Segment → List Variable
  | [] => []
  | literal _ :: segments => vars segments
  | var v :: segments => v :: vars segments

end Segment

end RouteTable
