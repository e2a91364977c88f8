import RouteTable.Index.PrefixTrie
import RouteTable.Proofs.Index.Answer
import RouteTable.Proofs.Utf8.Key

/-!
# Walks down a trie

The edges of a trie are read as a relation between nodes, and the texts that nodes spell are read
off the walks along them.

* `PrefixTrie.Edge`, `PrefixTrie.Walk`: one edge, and a row of them
* `WellFormed`: what insertions keep of a trie
* `Walk.cancel`: a walk goes on from where a shorter one ended
* `WellFormed.node_unique`, `WellFormed.text_unique`: no two nodes spell the same text, and no node
  spells two of them
-/

namespace RouteTable.PrefixTrie

variable {t : PrefixTrie} {i j k : Nat} {u v w : Bytes}

def Edge (t : PrefixTrie) (i : Nat) (v : Bytes) (j : Nat) : Prop :=
  (t.node j).label = v ∧ ∃ e ∈ (t.node i).edges, e.child = j

/-- The labels on the way from node `i` down to node `j` spell `w`. -/
inductive Walk (t : PrefixTrie) : Nat → Bytes → Nat → Prop
  | nil (i : Nat) : Walk t i [] i
  | cons {i j k : Nat} {v w : Bytes} (first : t.Edge i v j) (rest : Walk t j w k) :
      Walk t i (v ++ w) k

/-- A tree that is rooted in node 0, with well-formed labels and the edges of each node in the order
of their keys. -/
structure WellFormed (t : PrefixTrie) : Prop where
  size_pos : 0 < t.nodes.size
  child_pos : ∀ {i v j}, t.Edge i v j → 0 < j
  child_lt : ∀ {i v j}, t.Edge i v j → j < t.nodes.size
  parent_unique : ∀ {i i' v v' j}, t.Edge i v j → t.Edge i' v' j → i = i'
  label_ne_nil : ∀ {i v j}, t.Edge i v j → v ≠ []
  isValid_label : ∀ {i v j}, t.Edge i v j → Utf8.isValid v
  key_eq : ∀ {i e}, e ∈ (t.node i).edges → e.key = Utf8.leadKey (t.node e.child).label
  sorted : ∀ i, (t.node i).edges.Pairwise (·.key < ·.key)
  from_root : ∀ {j}, j < t.nodes.size → ∃ w, t.Walk 0 w j

/-! ## Nodes and edges -/

/-- An index beyond the table stands for a node with nothing in it. -/
theorem node_of_size_le (h : t.nodes.size ≤ i) : t.node i = {} := by
  rw [node, Array.getD_eq_getD_getElem?, Array.getElem?_eq_none h]
  rfl

theorem Edge.lt_size (h : t.Edge i v j) : i < t.nodes.size := by
  obtain ⟨-, e, he, -⟩ := h
  apply Nat.lt_of_not_le
  intro hle
  rw [node_of_size_le hle] at he
  exact absurd he List.not_mem_nil

theorem edge_of_mem {e : TrieEdge} (he : e ∈ (t.node i).edges) :
    t.Edge i (t.node e.child).label e.child :=
  ⟨rfl, e, he, rfl⟩

/-! ## Walks -/

namespace Walk

theorem single (h : t.Edge i v j) : t.Walk i v j := by
  have := Walk.cons h (.nil j)
  rwa [List.append_nil] at this

theorem append (h : t.Walk i v j) (g : t.Walk j w k) : t.Walk i (v ++ w) k := by
  induction h with
  | nil i => exact g
  | cons first rest ih =>
    rw [List.append_assoc]
    exact .cons first (ih g)

theorem eq_nil_or_last (h : t.Walk i w k) :
    (w = [] ∧ i = k) ∨ ∃ u v j, t.Walk i u j ∧ t.Edge j v k ∧ w = u ++ v := by
  induction h with
  | nil i => exact Or.inl ⟨rfl, rfl⟩
  | @cons i j k v w first rest ih =>
    right
    rcases ih with ⟨rfl, rfl⟩ | ⟨u, v', j', hu, hv, rfl⟩
    · exact ⟨[], v, i, .nil i, first, List.append_nil v⟩
    · exact ⟨v ++ u, v', j', .cons first hu, hv, (List.append_assoc _ _ _).symm⟩

theorem lt_size (h : t.Walk i w j) (ht : t.WellFormed) (hi : i < t.nodes.size) :
    j < t.nodes.size := by
  rcases h.eq_nil_or_last with ⟨-, rfl⟩ | ⟨_, _, _, -, hv, -⟩
  · exact hi
  · exact ht.child_lt hv

theorem isValid (h : t.Walk i w j) (ht : t.WellFormed) : Utf8.isValid w := by
  induction h with
  | nil i => rfl
  | cons first rest ih => rwa [Utf8.isValid_append (ht.isValid_label first)]

/-- What is kept of all edges is kept of all walks. -/
theorem mono {t' : PrefixTrie} (hedge : ∀ {i v j}, t.Edge i v j → t'.Walk i v j)
    (h : t.Walk i w j) : t'.Walk i w j := by
  induction h with
  | nil i => exact .nil i
  | cons first rest ih => exact (hedge first).append ih

end Walk

namespace WellFormed

/-! ## Children -/

theorem edge_unique (ht : t.WellFormed) {e e' : TrieEdge} (he : e ∈ (t.node i).edges)
    (he' : e' ∈ (t.node i).edges) (hk : e.key = e'.key) : e = e' := by
  have h := (sortedFind?_eq_some_iff (ht.sorted i)).2 ⟨he, hk⟩
  have h' := (sortedFind?_eq_some_iff (ht.sorted i)).2 ⟨he', rfl⟩
  exact Option.some.inj (h.symm.trans h')

theorem edge_of_child? (ht : t.WellFormed) {key : UInt32} (h : (t.node i).child? key = some k) :
    ∃ v, t.Edge i v k ∧ Utf8.leadKey v = key := by
  obtain ⟨e, he, rfl⟩ := Option.map_eq_some_iff.1 h
  obtain ⟨hm, rfl⟩ := (sortedFind?_eq_some_iff (ht.sorted i)).1 he
  exact ⟨_, edge_of_mem hm, (ht.key_eq hm).symm⟩

theorem key_ne_of_child? (ht : t.WellFormed) {key : UInt32} (h : (t.node i).child? key = none) :
    ∀ e ∈ (t.node i).edges, e.key ≠ key :=
  (sortedFind?_eq_none_iff (ht.sorted i)).1 (Option.map_eq_none_iff.1 h)

theorem child?_of_edge (ht : t.WellFormed) (h : t.Edge i v k) :
    (t.node i).child? (Utf8.leadKey v) = some k := by
  obtain ⟨rfl, e, he, rfl⟩ := h
  exact Option.map_eq_some_iff.2
    ⟨e, (sortedFind?_eq_some_iff (ht.sorted i)).2 ⟨he, ht.key_eq he⟩, rfl⟩

/-! ## Uniqueness -/

/-- At most one edge of a node has a label that a text begins with. -/
theorem edge_deterministic (ht : t.WellFormed) (h : t.Edge i v j) (h' : t.Edge i w k) {s : Bytes}
    (hv : v <+: s) (hw : w <+: s) : v = w ∧ j = k := by
  have hkey : Utf8.leadKey v = Utf8.leadKey w := by
    rw [Utf8.leadKey_eq_of_prefix (ht.isValid_label h) (ht.label_ne_nil h) hv,
      Utf8.leadKey_eq_of_prefix (ht.isValid_label h') (ht.label_ne_nil h') hw]
  obtain rfl := Option.some.inj ((ht.child?_of_edge h).symm.trans (hkey ▸ ht.child?_of_edge h'))
  exact ⟨h.1.symm.trans h'.1, rfl⟩

/-- A walk along which a shorter one goes begins with it. -/
theorem cancel (ht : t.WellFormed) (h : t.Walk i w j) (g : t.Walk i (w ++ u) k) : t.Walk j u k := by
  induction h with
  | nil i => exact g
  | @cons i j _ v w first rest ih =>
    apply ih
    rw [List.append_assoc] at g
    generalize hs : v ++ (w ++ u) = s at g
    cases g with
    | nil => exact absurd (List.append_eq_nil_iff.1 hs).1 (ht.label_ne_nil first)
    | cons first' rest' =>
      obtain ⟨rfl, rfl⟩ := ht.edge_deterministic first first' ⟨_, hs⟩ ⟨_, rfl⟩
      rwa [List.append_cancel_left hs]

theorem eq_of_walk_nil (ht : t.WellFormed) (h : t.Walk i [] j) : i = j := by
  rcases h.eq_nil_or_last with ⟨-, h⟩ | ⟨u, v, _, -, hv, hw⟩
  · exact h
  · exact absurd (List.append_eq_nil_iff.1 hw.symm).2 (ht.label_ne_nil hv)

theorem node_unique (ht : t.WellFormed) (h : t.Walk i w j) (g : t.Walk i w k) : j = k := by
  refine ht.eq_of_walk_nil (ht.cancel h (u := []) ?_)
  rwa [List.append_nil]

theorem text_unique (ht : t.WellFormed) (h : t.Walk 0 v j) (g : t.Walk 0 w j) : v = w := by
  induction hn : v.length using Nat.strong_induction_on generalizing v w j with
  | _ n ih =>
    rcases h.eq_nil_or_last with ⟨rfl, rfl⟩ | ⟨u, l, k, hu, hl, rfl⟩
    · rcases g.eq_nil_or_last with ⟨rfl, -⟩ | ⟨_, _, _, -, hl, -⟩
      · rfl
      · exact absurd (ht.child_pos hl) (Nat.lt_irrefl 0)
    · rcases g.eq_nil_or_last with ⟨rfl, rfl⟩ | ⟨u', l', k', hu', hl', rfl⟩
      · exact absurd (ht.child_pos hl) (Nat.lt_irrefl 0)
      · -- The last edges come from the same node, whose texts are shorter.
        obtain rfl := ht.parent_unique hl hl'
        have hlen : u.length < n := by
          have := List.length_pos_iff.2 (ht.label_ne_nil hl)
          rw [← hn, List.length_append]
          omega
        rw [ih u.length hlen hu hu' rfl, ← hl.1, ← hl'.1]

end WellFormed

/-! ## Tries with the same edges -/

section Congr

variable {t' : PrefixTrie}
variable (h : ∀ i, (t'.node i).label = (t.node i).label ∧ (t'.node i).edges = (t.node i).edges)

include h

/-- Labels and edges are all that matters for walks. -/
theorem edge_congr : t'.Edge i v j ↔ t.Edge i v j := by
  rw [Edge, Edge, (h i).2, (h j).1]

theorem walk_congr : t'.Walk i w j ↔ t.Walk i w j :=
  ⟨.mono fun hedge => .single ((edge_congr h).1 hedge),
    .mono fun hedge => .single ((edge_congr h).2 hedge)⟩

theorem WellFormed.congr (ht : t.WellFormed) (hsize : t'.nodes.size = t.nodes.size) :
    t'.WellFormed where
  size_pos := hsize ▸ ht.size_pos
  child_pos hedge := ht.child_pos ((edge_congr h).1 hedge)
  child_lt hedge := hsize ▸ ht.child_lt ((edge_congr h).1 hedge)
  parent_unique h₁ h₂ := ht.parent_unique ((edge_congr h).1 h₁) ((edge_congr h).1 h₂)
  label_ne_nil hedge := ht.label_ne_nil ((edge_congr h).1 hedge)
  isValid_label hedge := ht.isValid_label ((edge_congr h).1 hedge)
  key_eq he := by
    rw [(h _).2] at he
    rw [(h _).1, ht.key_eq he]
  sorted i := by
    rw [(h i).2]
    exact ht.sorted i
  from_root hj := by
    obtain ⟨w, hw⟩ := ht.from_root (hsize ▸ hj)
    exact ⟨w, (walk_congr h).2 hw⟩

end Congr

end RouteTable.PrefixTrie
