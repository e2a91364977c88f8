import RouteTable.Pattern.Validity
import RouteTable.Pattern.Specificity

/-!
# Path patterns

A pattern is a row of valid segments together with a text that spells it. A pattern without
variables stands for its literal text alone. The rules of the others are put together into one
regular expression, in which each variable has a capturing group.

* `Pattern.parse`: the pattern that a text spells
* `Pattern.compile`: the pattern of a row of segments
* `Pattern.shape`: what is left of a pattern without the names of its variables
* `PatternInput`: what a pattern can be read from
-/

namespace RouteTable

/-! ## Regular expressions of segments -/

namespace Segment

/-- The regular expression text of a segment. A variable's rule has a group of its own, at the end
of which the flags set inside end, too. -/
def expression : Segment → Bytes
  | literal text => Regex.quote text
  | var v => Bytes.ofString "(" ++ v.rule ++ Bytes.ofString ")"

/-- The numbers of the groups that variables have, given the numbers of groups within their rules.
The first of them is `index`. -/
def groupIndices (index : Nat) : List Nat → List Nat
  | [] => []
  | count :: counts => index :: groupIndices (index + 1 + count) counts

/-- The part of a shape that a segment gives: its kind, the length of its text, and the text. -/
def shape : Segment → Bytes
  | literal text => Bytes.ofString "L" ++ sized text
  | var v => Bytes.ofString "V" ++ sized v.rule
where
  /-- A text with its length in front. -/
  sized (text : Bytes) : Bytes :=
    Bytes.ofString text.length.repr ++ Bytes.ofString ":" ++ text

/-- The text of the leading literals. -/
def literalPrefix : List Segment → Bytes
  | literal text :: segments => text ++ literalPrefix segments
  | _ => []

def literalCount : List Segment → Nat
  | [] => 0
  | literal text :: segments => Utf8.scalarCount text + literalCount segments
  | var _ :: segments => literalCount segments

end Segment

/-! ## Patterns -/

/-- How a pattern with variables is matched: an expression for whole paths, and the variables' names
with the numbers of their groups. -/
structure Matcher where
  regex : Regex
  captures : List (Bytes × Nat)
  deriving DecidableEq, Repr

structure Pattern where
  /-- The text that spells the pattern. -/
  source : Bytes
  segments : List Segment
  /-- How paths are matched, unless the pattern stands for its literal text alone. -/
  matcher : Option Matcher
  deriving DecidableEq, Repr

namespace Pattern

/-- The matcher of a row of segments, given the numbers of groups within the rules. -/
def makeMatcher (segments : List Segment) (counts : List Nat) :
    Except PatternFault (Option Matcher) :=
  let names := (Segment.vars segments).map (·.name)
  if names.isEmpty then .ok none
  else
    let expression := segments.flatMap Segment.expression
    match Regex.ofBytes? expression with
    | some r => .ok (some ⟨r, names.zip (Segment.groupIndices 1 counts)⟩)
    | none => .error (.cannotCompile expression)

/-- The pattern of a row of segments that the given text spells. -/
def build (source : Bytes) (segments : List Segment) : Except PatternError Pattern :=
  match Segment.validate segments >>= makeMatcher segments with
  | .ok matcher => .ok { source, segments, matcher }
  | .error fault => .error ⟨source, fault⟩

def parse (source : Bytes) : Except PatternError Pattern := do
  build source (← Segment.scan source)

/-- The pattern of a row of segments. Its text is spelled from them. -/
def compile (segments : List Segment) : Except PatternError Pattern :=
  let segments := Segment.normalize segments
  let source := segments.flatMap Segment.spell
  if Segment.backslashBeforeVariable segments then .error ⟨source, .backslashBeforeVariable⟩
  else build source segments

/-! ## Properties -/

def isLiteral (p : Pattern) : Bool :=
  p.matcher.isNone

/-- The literal text in front of the first variable, or the whole text of a literal pattern. -/
def literalPrefix (p : Pattern) : Bytes :=
  Segment.literalPrefix p.segments

/-- What is left of the pattern without the names of its variables. Patterns of the same shape match
the same paths. -/
def shape (p : Pattern) : Bytes :=
  p.segments.flatMap Segment.shape

def variableCount (p : Pattern) : UInt32 :=
  .ofNat (Segment.vars p.segments).length

def literalCount (p : Pattern) : UInt32 :=
  .ofNat (Segment.literalCount p.segments)

def specificity (p : Pattern) : Specificity :=
  ⟨p.variableCount, p.literalCount⟩

end Pattern

/-! ## Inputs -/

inductive PatternInput where
  | source (text : Bytes)
  | segments (row : List Segment)

def PatternInput.read : PatternInput → Except PatternError Pattern
  | source text => Pattern.parse text
  | segments row => Pattern.compile row

end RouteTable
