import RouteTable.Regex.Lexer
import RouteTable.Utf8.Scalar

/-!
# Reading regular expressions

The tokens of an expression are taken one after the other. At each moment there is the group that is
being read, and a row of groups around it that wait for its end.

* `Regex.Reader.step`: what one token does
* `Regex.parse?`: the expression that a text spells, or `none` if it spells none
-/

namespace RouteTable.Regex

/-! ## Open groups -/

/-- A group being read, or the whole expression: the alternatives before the last bar, and the parts
of the alternative after it, both with the last one first. -/
structure Level where
  branches : List Regex := []
  items : List Regex := []

namespace Level

def push (l : Level) (r : Regex) : Level :=
  { l with items := r :: l.items }

def branch (l : Level) : Regex :=
  concat l.items.reverse

def bar (l : Level) : Level where
  branches := l.branch :: l.branches

def toRegex (l : Level) : Regex :=
  choice (l.branch :: l.branches).reverse

end Level

/-- What waits for the end of a group: the group around it, with the flags that are on there, and
what the inner group captures, if it does. -/
structure Waiting where
  level : Level
  flags : Flags
  capture : Option (Nat × Option (List Char))

def Waiting.part (w : Waiting) (r : Regex) : Regex :=
  match w.capture with
  | some (index, name) => group index name r
  | none => r

structure Reader where
  level : Level := {}
  flags : Flags := {}
  /-- The groups around the one being read, from the inside out. -/
  waiting : List Waiting := []
  /-- The number of capturing groups opened so far. -/
  captures : Nat := 0
  /-- The number of parts so far that match a character. -/
  charParts : Nat := 0
  /-- Whether the last token was a repetition, after which no other one may stand. -/
  repeated : Bool := false

/-! ## Tokens -/

namespace Reader

def push (s : Reader) (r : Regex) : Reader :=
  { s with level := s.level.push r, repeated := false }

def enter (s : Reader) (flags : Flags) (capture : Option (Nat × Option (List Char))) : Reader :=
  { s with
    level := {}
    flags := flags
    waiting := ⟨s.level, s.flags, capture⟩ :: s.waiting
    repeated := false }

def leave? (s : Reader) : Option Reader :=
  match s.waiting with
  | [] => none
  | w :: ws =>
    some { s with
      level := w.level.push (w.part s.level.toRegex)
      flags := w.flags
      waiting := ws
      repeated := false }

def repeat? (s : Reader) (least : Nat) (extra : Option Nat) (marked : Bool) : Option Reader :=
  match s.level.items with
  | [] => none
  | r :: rs =>
    let r := times least extra (marked == s.flags.swapGreed) r
    if !s.repeated && r.repeatsWithin maxRepeat then
      some { s with level := { s.level with items := r :: rs }, repeated := true }
    else none

def pushSet (s : Reader) (set : CharSet) : Reader :=
  { s.push (chars s.charParts set) with charParts := s.charParts + 1 }

def pushLiteral (s : Reader) (c : Nat) : Reader :=
  s.pushSet (.single c s.flags.ignoreCase)

def step (s : Reader) : Token → Option Reader
  | .literal c => some (s.pushLiteral c)
  | .quoted text =>
    some (text.foldl (fun s c => s.pushLiteral c.toNat) { s with repeated := false })
  | .dot => some (s.pushSet (.dot s.flags.dotAll))
  | .set items negated => some (s.pushSet ⟨items, negated, s.flags.ignoreCase⟩)
  | .caret => some (s.push (anchor (if s.flags.multiline then .lineStart else .textStart)))
  | .dollar => some (s.push (anchor (if s.flags.multiline then .lineEnd else .textEnd)))
  | .anchor a => some (s.push (anchor a))
  | .openCapture name =>
    some { s.enter s.flags (some (s.captures + 1, name)) with captures := s.captures + 1 }
  | .openFlags settings => some (s.enter (s.flags.apply settings) none)
  | .setFlags settings => some { s with flags := s.flags.apply settings, repeated := false }
  | .close => s.leave?
  | .bar => some { s with level := s.level.bar, repeated := false }
  | .repetition least extra marked => s.repeat? least extra marked

def finish? (s : Reader) : Option Regex :=
  if s.waiting.isEmpty then some s.level.toRegex else none

end Reader

/-! ## Texts -/

def ofTokens? (ts : List Token) : Option Regex :=
  ts.foldlM Reader.step {} >>= Reader.finish?

def parse? (s : List Char) : Option Regex :=
  tokens? s >>= ofTokens?

/-- The expression that a text in UTF-8 spells. It is an assumption that other texts spell none,
even if all that is wrong with them is an encoded surrogate. -/
def ofBytes? (s : Bytes) : Option Regex :=
  Utf8.decode? s >>= parse?

/-! ## Quoting -/

/-- The regular expression text that matches exactly the given text: all bytes but those of letters,
digits, underscores and longer sequences have a backslash in front. -/
def quote (text : Bytes) : Bytes :=
  text.flatMap fun b =>
    if b = 0 then Bytes.ofString "\\x00"
    else if 0x80 ≤ b || CharClass.word.contains b.toNat then [b]
    else [0x5C, b]

end RouteTable.Regex
