import RouteTable.Index.PositionSet
import RouteTable.Pattern.Basic

/-!
# What an index knows of a pattern

An index tells which of the ranked patterns can match a path. All it knows of a pattern is its
position in the ranking, its leading literal text and whether that is the whole pattern.

* `sortedFind?`: the element of a sorted list with a given key
* `IndexEntry`: a pattern as an index sees it
* `Candidates`: what an index answers for a path
-/

namespace RouteTable

/-- The element with the given key in a list that is sorted by its keys. The first element whose key
is not smaller is that element, if there is one. -/
def sortedFind? {α κ : Type} [LT κ] [DecidableLT κ] [DecidableEq κ] (key : α → κ) (k : κ)
    (l : List α) : Option α :=
  match l.dropWhile (key · < k) with
  | a :: _ => if key a = k then some a else none
  | [] => none

structure IndexEntry where
  /-- The place of the pattern in the ranking, beginning with 0. -/
  position : UInt32
  /-- The literal text in front of the first variable. -/
  text : Bytes
  /-- Whether the pattern has no variable, and the text is all of it. -/
  isLiteral : Bool
  deriving DecidableEq, Repr

def IndexEntry.ofRanking (ranking : List Pattern) : List IndexEntry :=
  ranking.zipIdx.map fun (p, i) => ⟨.ofNat i, p.literalPrefix, p.isLiteral⟩

/-- What an index answers for a path: the position of the literal pattern that is the path, and the
positions of the patterns with variables whose leading text the path begins with. -/
structure Candidates where
  exact : Option UInt32
  positions : PositionSet
  deriving DecidableEq

end RouteTable
