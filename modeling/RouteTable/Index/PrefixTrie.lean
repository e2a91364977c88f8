import RouteTable.Index.Basic

/-!
# The trie of leading texts

The leading texts of the patterns are spread over a tree whose edges have labels. From the root, the
labels on the way to a node spell a text, and texts share the labels of what they have in common.
Labels are split between whole UTF-8 sequences only. The nodes are kept in one table, with the root
at index 0.

* `PrefixTrie.insert`: adds the nodes for a text
* `PrefixTrie.Insertion`: an insertion, turn by turn
* `PrefixTrie.collect`: follows a path from the root and collects the candidates on the way
* `PrefixTrie.depth`: the number of edges on the longest way down
* `PrefixTrie.Visit`: the loop that finds it, turn by turn
-/

namespace RouteTable

structure TrieEdge where
  /-- The key of the first sequence of the child's label. -/
  key : UInt32
  child : Nat
  deriving DecidableEq, Repr

structure TrieNode where
  /-- The text on the edge to the node. -/
  label : Bytes := []
  /-- The edges to the children, in the order of their keys. -/
  edges : List TrieEdge := []
  /-- The positions of the patterns with variables whose leading text ends here, in increasing
  order. -/
  positions : List UInt32 := []
  /-- The position of the literal pattern whose text ends here. -/
  exact : Option UInt32 := none
  deriving DecidableEq, Repr

namespace TrieNode

def child? (n : TrieNode) (key : UInt32) : Option Nat :=
  (sortedFind? TrieEdge.key key n.edges).map (·.child)

def insertEdge (e : TrieEdge) : List TrieEdge → List TrieEdge
  | [] => [e]
  | e' :: es => if e'.key < e.key then e' :: insertEdge e es else e :: e' :: es

def addEdge (n : TrieNode) (e : TrieEdge) : TrieNode :=
  { n with edges := insertEdge e n.edges }

/-- The node with the edge of the given key leading to another child. -/
def redirect (n : TrieNode) (key : UInt32) (child : Nat) : TrieNode :=
  { n with edges := n.edges.map fun e => if e.key = key then { e with child } else e }

def addEntry (n : TrieNode) (e : IndexEntry) : TrieNode :=
  if e.isLiteral then { n with exact := some e.position }
  else { n with positions := n.positions ++ [e.position] }

end TrieNode

structure PrefixTrie where
  nodes : Array TrieNode
  deriving DecidableEq, Repr

namespace PrefixTrie

def root : PrefixTrie where
  nodes := #[{}]

def node (t : PrefixTrie) (i : Nat) : TrieNode :=
  t.nodes.getD i {}

/-! ## Insertion -/

/-- Adds a leaf with the given label below node `i`. Its index comes with the trie. -/
def addLeaf (t : PrefixTrie) (i : Nat) (label : Bytes) : PrefixTrie × Nat :=
  let leaf := t.nodes.size
  ({ nodes := (t.nodes.modify i (·.addEdge ⟨Utf8.leadKey label, leaf⟩)).push { label } }, leaf)

/-- Splits the edge from node `i` to the given child after the first `n` bytes of its label. A new
node takes these bytes and has the child below it. -/
def splitEdge (t : PrefixTrie) (i child n : Nat) : PrefixTrie × Nat :=
  let middle := t.nodes.size
  let label := (t.node child).label
  let nodes := t.nodes.modify i (·.redirect (Utf8.leadKey label) middle)
  let nodes := nodes.modify child fun node => { node with label := label.drop n }
  ({ nodes := nodes.push
      { label := label.take n, edges := [⟨Utf8.leadKey (label.drop n), child⟩] } }, middle)

/-- The number of bytes, in whole sequences, that the label of a node shares with a text. -/
def sharedLength (t : PrefixTrie) (i : Nat) (text : Bytes) : Nat :=
  Utf8.sharedPrefixLength (t.node i).label text

/-- Adds what is missing below node `i` so that labels spell `text` from there on. The index of the
node where they do comes with the trie. The label of an edge with the key of the text shares a
sequence with it, so that the text gets shorter along each edge. -/
def insertBelow (t : PrefixTrie) (i : Nat) (text : Bytes) : PrefixTrie × Nat :=
  if text = [] then (t, i)
  else
    match (t.node i).child? (Utf8.leadKey text) with
    | none => t.addLeaf i text
    | some child =>
      if t.sharedLength child text = 0 then (t, i)
      else if t.sharedLength child text < (t.node child).label.length then
        let (split, middle) := t.splitEdge i child (t.sharedLength child text)
        split.insertBelow middle (text.drop (t.sharedLength child text))
      else t.insertBelow child (text.drop (t.sharedLength child text))
termination_by text.length
decreasing_by
  all_goals
    have := List.length_pos_iff.2 ‹text ≠ []›
    rw [List.length_drop]
    omega

def insert (t : PrefixTrie) (text : Bytes) : PrefixTrie × Nat :=
  t.insertBelow 0 text

/-! ### The turns of an insertion -/

/-- An insertion on its way: the trie as it is, the node that is reached, and what is left of the
text. -/
structure Insertion where
  trie : PrefixTrie
  node : Nat
  rest : Bytes

namespace Insertion

/-- One turn. What is left of the text becomes a leaf, or the part of it that it shares with the
label of an edge is read, and the edge is split if this is not the whole label. -/
def turn (s : Insertion) : Insertion :=
  if s.rest = [] then s
  else
    match (s.trie.node s.node).child? (Utf8.leadKey s.rest) with
    | none => ⟨(s.trie.addLeaf s.node s.rest).1, (s.trie.addLeaf s.node s.rest).2, []⟩
    | some child =>
      let n := s.trie.sharedLength child s.rest
      if n < (s.trie.node child).label.length then
        ⟨(s.trie.splitEdge s.node child n).1, (s.trie.splitEdge s.node child n).2,
          s.rest.drop n⟩
      else ⟨s.trie, child, s.rest.drop n⟩

end Insertion

/-! ## Entries -/

def add (t : PrefixTrie) (e : IndexEntry) : PrefixTrie :=
  let (t, i) := t.insert e.text
  { nodes := t.nodes.modify i (·.addEntry e) }

def ofEntries (entries : List IndexEntry) : PrefixTrie :=
  entries.foldl add root

/-! ## Search -/

/-- Collects the candidates for a path whose labels up to node `i` are read and of which `path` is
left. -/
def collectBelow (t : PrefixTrie) (i : Nat) (path : Bytes) (positions : PositionSet) : Candidates :=
  let node := t.node i
  let positions := node.positions.foldl PositionSet.insert positions
  if path = [] then ⟨node.exact, positions⟩
  else
    match node.child? (Utf8.leadKey path) with
    | none => ⟨none, positions⟩
    | some child =>
      if (t.node child).label ≠ [] ∧ (t.node child).label.isPrefixOf path then
        t.collectBelow child (path.drop (t.node child).label.length) positions
      else ⟨none, positions⟩
termination_by path.length
decreasing_by
  have := List.length_pos_iff.2 ‹path ≠ []›
  have := List.length_pos_iff.2 (And.left ‹_›)
  rw [List.length_drop]
  omega

def collect (t : PrefixTrie) (path : Bytes) (positions : PositionSet) : Candidates :=
  t.collectBelow 0 path positions

/-! ## Depth -/

/-- The children of a node with their depth, the last one in front. -/
def childrenAt (t : PrefixTrie) (i depth : Nat) : List (Nat × Nat) :=
  ((t.node i).edges.map fun e => (e.child, depth)).reverse

/-- The greatest depth among the given nodes and all below them, each node coming with its own
depth. The node that came last is visited first, and at most `fuel` nodes are visited. -/
def deepest (t : PrefixTrie) (fuel : Nat) (pending : List (Nat × Nat)) : Nat :=
  match fuel, pending with
  | 0, _ | _, [] => 0
  | fuel + 1, (i, depth) :: pending =>
    max depth (t.deepest fuel (t.childrenAt i (depth + 1) ++ pending))

/-- The number of edges on the longest way from the root. Each node is visited once. -/
def depth (t : PrefixTrie) : Nat :=
  t.deepest t.nodes.size [(0, 0)]

/-! ### The turns of the loop -/

/-- The loop on its way: the greatest depth so far, the nodes that wait, each with its depth, and
the nodes that were visited. -/
structure Visit where
  deepest : Nat
  pending : List (Nat × Nat)
  visited : List Nat

namespace Visit

def start : Visit where
  deepest := 0
  pending := [(0, 0)]
  visited := []

/-- One turn. The node that came last is visited, and its children wait. -/
def turn (t : PrefixTrie) (s : Visit) : Visit :=
  match s.pending with
  | [] => s
  | (i, depth) :: pending =>
    ⟨max s.deepest depth, t.childrenAt i (depth + 1) ++ pending, i :: s.visited⟩

end Visit

end PrefixTrie

end RouteTable
