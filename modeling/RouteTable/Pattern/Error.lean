import RouteTable.Utf8.Basic

/-!
# Faults in path patterns

* `PatternFault`: what can be wrong with a pattern
* `PatternError.message`: how it is reported
-/

namespace RouteTable

inductive PatternFault where
  | notUtf8
  /-- No brace closes the declaration that begins at the given index. -/
  | unclosedVariable (index : Nat)
  | literalNotUtf8
  | invalidName (name : Bytes)
  | duplicateName (name : Bytes)
  | emptyRule (name : Bytes)
  /-- The rule of a variable is no regular expression. -/
  | invalidRule (rule name : Bytes)
  /-- A named group of the variable's rule has the name of a group of an earlier one. -/
  | duplicateGroup (group name : Bytes)
  | backslashBeforeVariable
  /-- The regular expression put together from all segments is none. -/
  | cannotCompile (expression : Bytes)
  deriving DecidableEq, Repr

namespace PatternFault

def quoted (text : Bytes) : Bytes :=
  Bytes.ofString "'" ++ text ++ Bytes.ofString "'"

/-- What stands for the details of a fault within a regular expression. -/
def expressionDetails : Bytes :=
  Bytes.ofString ": <regex error>"

def reason : PatternFault → Bytes
  | notUtf8 => Bytes.ofString "not valid UTF-8"
  | unclosedVariable index =>
    Bytes.ofString "unclosed variable declaration starting at index " ++ Bytes.ofString index.repr
  | literalNotUtf8 => Bytes.ofString "literal text is not valid UTF-8"
  | invalidName name => Bytes.ofString "invalid variable name " ++ quoted name
  | duplicateName name => Bytes.ofString "duplicate variable name " ++ quoted name
  | emptyRule name => Bytes.ofString "empty regular expression for variable " ++ quoted name
  | invalidRule rule name =>
    Bytes.ofString "invalid regular expression " ++ quoted rule ++
      Bytes.ofString " for variable " ++ quoted name ++ expressionDetails
  | duplicateGroup group name =>
    Bytes.ofString "duplicate named group " ++ quoted group ++
      Bytes.ofString " in variable " ++ quoted name
  | backslashBeforeVariable =>
    Bytes.ofString "a literal ending with '\\' cannot precede a variable"
  | cannotCompile expression =>
    Bytes.ofString "cannot compile " ++ quoted expression ++ expressionDetails

end PatternFault

/-- A message as it is shown: it ends before its first zero byte. -/
def shownMessage (text : Bytes) : Bytes :=
  text.takeWhile (· ≠ 0)

def invalidPatternMessage (pattern reason : Bytes) : Bytes :=
  shownMessage
    (Bytes.ofString "Invalid path pattern " ++ PatternFault.quoted pattern ++ Bytes.ofString ": " ++
      reason)

structure PatternError where
  /-- The pattern as it was given. -/
  pattern : Bytes
  fault : PatternFault
  deriving DecidableEq, Repr

def PatternError.message (e : PatternError) : Bytes :=
  invalidPatternMessage e.pattern e.fault.reason

end RouteTable
