import RouteTable.Regex.CharSet

/-!
# Regular expressions

* `Regex`: the syntax tree of an expression
* `Regex.groupCount`, `Regex.groupNames`: its capturing groups
* `Regex.nullable`: whether it can match the empty text
* `Regex.repeatsWithin`: whether nested repetitions stay within a bound
-/

namespace RouteTable

inductive Anchor where
  | textStart | textEnd
  /-- The start of the text or the place after a line feed. -/
  | lineStart
  /-- The end of the text or the place before a line feed. -/
  | lineEnd
  | wordBoundary
  | notWordBoundary
  deriving DecidableEq, Repr

namespace Anchor

def isWord (c : Option Char) : Bool :=
  c.any fun c => CharClass.word.contains c.toNat

/-- Whether the condition holds between the characters `before` and `after`, of which there is none
at an end of the text. -/
def holds (a : Anchor) (before after : Option Char) : Bool :=
  match a with
  | textStart => before.isNone
  | textEnd => after.isNone
  | lineStart => before.all (· == '\n')
  | lineEnd => after.all (· == '\n')
  | wordBoundary => isWord before != isWord after
  | notWordBoundary => isWord before == isWord after

end Anchor

/-- A regular expression. Its alternatives are ordered by preference, and so are the numbers of
times that a repetition is gone through. -/
inductive Regex where
  /-- Matches the empty text. -/
  | empty
  /-- Matches one character. The parts of an expression that match a character are numbered, so that
  no two of them are the same expression. -/
  | chars (index : Nat) (set : CharSet)
  | anchor (a : Anchor)
  | seq (r₁ r₂ : Regex)
  | alt (r₁ r₂ : Regex)
  /-- Goes `least` times through `r`, and after that at most `extra` times, or any number of times
  if there is no such bound. More times are preferred if it is greedy, fewer times if not. -/
  | times (least : Nat) (extra : Option Nat) (greedy : Bool) (r : Regex)
  /-- A group that captures what `r` matches under a number and perhaps a name. -/
  | group (index : Nat) (name : Option (List Char)) (r : Regex)
  deriving DecidableEq, Repr

namespace Regex

def concat : List Regex → Regex
  | [] => empty
  | [r] => r
  | r :: rs => seq r (concat rs)

def choice : List Regex → Regex
  | [] => empty
  | [r] => r
  | r :: rs => alt r (choice rs)

def groupCount : Regex → Nat
  | empty | chars _ _ | anchor _ => 0
  | seq r₁ r₂ | alt r₁ r₂ => r₁.groupCount + r₂.groupCount
  | times _ _ _ r => r.groupCount
  | group _ _ r => r.groupCount + 1

/-- The names of the named groups, in the order in which the groups open. -/
def groupNames : Regex → List (List Char)
  | empty | chars _ _ | anchor _ => []
  | seq r₁ r₂ | alt r₁ r₂ => r₁.groupNames ++ r₂.groupNames
  | times _ _ _ r => r.groupNames
  | group _ name r => name.toList ++ r.groupNames

def nullable : Regex → Bool
  | empty | anchor _ => true
  | chars _ _ => false
  | seq r₁ r₂ => r₁.nullable && r₂.nullable
  | alt r₁ r₂ => r₁.nullable || r₂.nullable
  | times least _ _ r => least == 0 || r.nullable
  | group _ _ r => r.nullable

/-- Whether nested repetitions multiply to at most `limit`. A repetition counts with the largest
number of times, or the least if that is unbounded. It is a limit of this model that one that is
gone through at most zero times ends the count; an engine that goes on below it refuses more
expressions. -/
def repeatsWithin (limit : Nat) : Regex → Bool
  | empty | chars _ _ | anchor _ => true
  | seq r₁ r₂ | alt r₁ r₂ => r₁.repeatsWithin limit && r₂.repeatsWithin limit
  | group _ _ r => r.repeatsWithin limit
  | times least extra _ r =>
    let n := least + extra.getD 0
    if n = 0 then extra.isSome || r.repeatsWithin limit
    else n ≤ limit && r.repeatsWithin (limit / n)

end Regex

end RouteTable
