import RouteTable.Index.Basic

/-!
# The list of leading texts

The plain index: it compares a path with every pattern that has variables, and looks it up among the
literal ones.

* `PrefixList.collect`: the candidates for a path
-/

namespace RouteTable

/-- The ranked patterns, those with variables and those without. -/
structure PrefixList where
  /-- In the order of the ranking. -/
  prefixes : List IndexEntry
  /-- In the order of the texts. -/
  literals : List IndexEntry
  deriving DecidableEq, Repr

namespace PrefixList

def ofEntries (entries : List IndexEntry) : PrefixList where
  prefixes := entries.filter (!·.isLiteral)
  literals := (entries.filter (·.isLiteral)).mergeSort fun a b => decide (a.text ≤ b.text)

def collect (l : PrefixList) (path : Bytes) (positions : PositionSet) : Candidates where
  exact := (sortedFind? IndexEntry.text path l.literals).map (·.position)
  positions :=
    (l.prefixes.filter (·.text.isPrefixOf path)).foldl (fun s e => s.insert e.position) positions

end PrefixList

end RouteTable
