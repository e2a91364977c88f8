import RouteTable.Index.PrefixList
import RouteTable.Index.PrefixTrie

/-!
# The index of a ranking

* `IndexConfig`: which kind of index is built
* `Index.build`: the index of a ranking of patterns
* `Index.collect`: the candidates for a path
-/

namespace RouteTable

/-- Which index a configuration asks for. -/
inductive IndexKind where
  /-- The list for few patterns with variables, and the trie for many. -/
  | auto
  | flat
  | trie
  deriving DecidableEq, Repr

namespace IndexKind

def name : IndexKind → String
  | auto => "auto"
  | flat => "flat"
  | trie => "trie"

def ofNat? : Nat → Option IndexKind
  | 0 => some auto
  | 1 => some flat
  | 2 => some trie
  | _ => none

end IndexKind

structure IndexConfig where
  kind : IndexKind := .auto
  /-- The largest number of patterns with variables for which the list is chosen. -/
  flatLimit : UInt32 := 64
  deriving DecidableEq, Repr

inductive IndexTable where
  | flat (l : PrefixList)
  | trie (t : PrefixTrie)
  deriving DecidableEq, Repr

structure Index where
  count : UInt32
  table : IndexTable
  deriving DecidableEq, Repr

def IndexConfig.choosesFlat (config : IndexConfig) (ranking : List Pattern) : Bool :=
  match config.kind with
  | .auto => ranking.countP (!·.isLiteral) ≤ config.flatLimit.toNat
  | .flat => true
  | .trie => false

namespace Index

def build (config : IndexConfig) (ranking : List Pattern) : Index where
  count := .ofNat ranking.length
  table :=
    let entries := IndexEntry.ofRanking ranking
    if config.choosesFlat ranking then .flat (.ofEntries entries) else .trie (.ofEntries entries)

def kind (x : Index) : IndexKind :=
  match x.table with
  | .flat _ => .flat
  | .trie _ => .trie

def collect (x : Index) (path : Bytes) (positions : PositionSet) : Candidates :=
  match x.table with
  | .flat l => l.collect path positions
  | .trie t => t.collect path positions

end Index

end RouteTable
