import RouteTable.Unicode.Category
import RouteTable.Unicode.CaseFold

/-!
# Sets of characters in regular expressions

A character set is what one position of a text is compared with: a character of the expression, the
dot, a class escape or a bracket expression. Characters are given by their code points.

* `CharClass`: the classes that have a name or an escape of their own
* `CharSet.contains`: whether a code point is in a set, case being ignored if the set says so
-/

namespace RouteTable

/-- The classes of code points that have a name of their own. Apart from the Unicode categories all
of them hold ASCII characters only. -/
inductive CharClass where
  | alnum | alpha | ascii | blank | control | digit | graphic | lower | printable | punct
  /-- White space as the named class has it, with the vertical tab. -/
  | space
  /-- White space as the escape has it, without the vertical tab. -/
  | blankSpace
  | upper | word | hexDigit
  /-- A general category of Unicode. -/
  | category (g : Unicode.Category)
  deriving DecidableEq, Repr

namespace CharClass

def between (first last : Char) (c : Nat) : Bool :=
  first.toNat ≤ c && c ≤ last.toNat

def contains : CharClass → Nat → Bool
  | alnum, c => between '0' '9' c || between 'A' 'Z' c || between 'a' 'z' c
  | alpha, c => between 'A' 'Z' c || between 'a' 'z' c
  | ascii, c => c < 0x80
  | blank, c => c == 0x09 || c == 0x20
  | control, c => c < 0x20 || c == 0x7F
  | digit, c => between '0' '9' c
  | graphic, c => between '!' '~' c
  | lower, c => between 'a' 'z' c
  | printable, c => between ' ' '~' c
  | punct, c => between '!' '/' c || between ':' '@' c || between '[' '\x60' c ||
    between '\x7b' '~' c
  | space, c => c == 0x20 || (0x09 ≤ c && c ≤ 0x0D)
  | blankSpace, c => c == 0x20 || c == 0x09 || c == 0x0A || c == 0x0C || c == 0x0D
  | upper, c => between 'A' 'Z' c
  | word, c => between '0' '9' c || between 'A' 'Z' c || between 'a' 'z' c || c == '_'.toNat
  | hexDigit, c => between '0' '9' c || between 'A' 'F' c || between 'a' 'f' c
  | category g, c => g.contains c

def ofName? (name : List Char) : Option CharClass :=
  match String.ofList name with
  | "alnum" => some alnum
  | "alpha" => some alpha
  | "ascii" => some ascii
  | "blank" => some blank
  | "cntrl" => some control
  | "digit" => some digit
  | "graph" => some graphic
  | "lower" => some lower
  | "print" => some printable
  | "punct" => some punct
  | "space" => some space
  | "upper" => some upper
  | "word" => some word
  | "xdigit" => some hexDigit
  | _ => none

end CharClass

/-! ## Sets -/

inductive CharItem where
  /-- The code points from `lo` to `hi`. -/
  | range (lo hi : Nat)
  /-- The code points of a class, or all others. -/
  | named (cls : CharClass) (negated : Bool)
  deriving DecidableEq, Repr

/-- A set of code points. With `ignoreCase`, each part also stands for the variants of its code
points in case; a negated class is negated after that, and so is the whole set. -/
structure CharSet where
  items : List CharItem
  negated : Bool := false
  ignoreCase : Bool := false
  deriving DecidableEq, Repr

/-- Whether one of the code points `cs` is in the part. For a negated class none of them may be in
the class. -/
def CharItem.containsAny : CharItem → List Nat → Bool
  | range lo hi, cs => cs.any fun c => lo ≤ c && c ≤ hi
  | named cls negated, cs => cs.any cls.contains != negated

namespace CharSet

def contains (s : CharSet) (c : Nat) : Bool :=
  let variants := if s.ignoreCase then Unicode.caseVariants c else [c]
  s.items.any (·.containsAny variants) != s.negated

def single (c : Nat) (ignoreCase : Bool) : CharSet where
  items := [.range c c]
  ignoreCase := ignoreCase

/-- The set that the dot stands for: all code points, or all but the line feed. -/
def dot (withLineFeed : Bool) : CharSet where
  items := if withLineFeed then [] else [.range 0x0A 0x0A]
  negated := true

end CharSet

end RouteTable
