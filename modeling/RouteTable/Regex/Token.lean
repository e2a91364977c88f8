import RouteTable.Regex.Basic

/-!
# Tokens of regular expressions

An expression is read as a row of tokens: characters, sets, anchors, repetitions and the parts that
groups are made of.

* `Regex.Token`: the tokens
* `Regex.Flags`, `Regex.FlagSetting`: the flags that an expression turns on and off
-/

namespace RouteTable.Regex

/-! ## Flags -/

/-- What an expression can change about the meaning of the text that follows. -/
inductive Flag where
  /-- Characters stand for their variants in case, too. -/
  | ignoreCase
  /-- The caret and the dollar match at line feeds, too. -/
  | multiline
  /-- The dot matches a line feed, too. -/
  | dotAll
  /-- Plain repetitions are lazy, and marked ones greedy. -/
  | swapGreed
  deriving DecidableEq, Repr

def Flag.ofChar? : Char → Option Flag
  | 'i' => some .ignoreCase
  | 'm' => some .multiline
  | 's' => some .dotAll
  | 'U' => some .swapGreed
  | _ => none

structure Flags where
  ignoreCase : Bool := false
  multiline : Bool := false
  dotAll : Bool := false
  swapGreed : Bool := false
  deriving DecidableEq, Repr

abbrev FlagSetting := Flag × Bool

def Flags.set (f : Flags) : FlagSetting → Flags
  | (.ignoreCase, on) => { f with ignoreCase := on }
  | (.multiline, on) => { f with multiline := on }
  | (.dotAll, on) => { f with dotAll := on }
  | (.swapGreed, on) => { f with swapGreed := on }

def Flags.apply (f : Flags) (settings : List FlagSetting) : Flags :=
  settings.foldl Flags.set f

/-! ## Tokens -/

inductive Token where
  /-- A code point that stands for itself. -/
  | literal (c : Nat)
  /-- Quoted text, each character of which stands for itself. -/
  | quoted (text : List Char)
  | dot
  /-- A class escape or a bracket expression. -/
  | set (items : List CharItem) (negated : Bool)
  | caret
  | dollar
  /-- An anchor whose meaning no flag changes. -/
  | anchor (a : Anchor)
  /-- Opens a capturing group, perhaps with a name. -/
  | openCapture (name : Option (List Char))
  /-- Opens a group that captures nothing and has flags of its own. -/
  | openFlags (settings : List FlagSetting)
  /-- Changes the flags up to the end of the group. -/
  | setFlags (settings : List FlagSetting)
  | close
  | bar
  /-- Repeats what comes before it, `least` times at least and at most `extra` times more. A marked
  repetition has the question mark that makes it lazy. -/
  | repetition (least : Nat) (extra : Option Nat) (marked : Bool)
  deriving DecidableEq, Repr

end RouteTable.Regex
