import RouteTable.Proofs.Index.Answer
import RouteTable.Proofs.Index.Walk

/-!
# New nodes in a trie

* `PrefixTrie.Extends`: a trie in which all walks of another one are left, and all patterns
* `wellFormed_addLeaf`, `extends_addLeaf`: a new leaf
* `wellFormed_splitEdge`, `extends_splitEdge`: a new node within an edge
* `exists_shared_sequence`: the edge with the key of a text shares a sequence with it
-/

namespace RouteTable

/-! ## Edges of a node -/

namespace TrieNode

theorem mem_insertEdge {e e' : TrieEdge} {l : List TrieEdge} :
    e' ∈ insertEdge e l ↔ e' = e ∨ e' ∈ l := by
  induction l with
  | nil => rw [insertEdge, List.mem_singleton, or_iff_left List.not_mem_nil]
  | cons a l ih =>
    rw [insertEdge]
    split
    · rw [List.mem_cons, ih, List.mem_cons]
      exact or_left_comm
    · rw [List.mem_cons]

theorem pairwise_insertEdge {e : TrieEdge} {l : List TrieEdge} (h : l.Pairwise (·.key < ·.key))
    (hnew : ∀ e' ∈ l, e'.key ≠ e.key) : (insertEdge e l).Pairwise (·.key < ·.key) := by
  induction h with
  | nil => exact List.pairwise_singleton _ _
  | @cons a l hlt hp ih =>
    rw [insertEdge]
    split
    · next ha =>
      refine List.pairwise_cons.2 ⟨?_, ih fun e' he' => hnew e' (List.mem_cons_of_mem _ he')⟩
      intro e' he'
      rcases mem_insertEdge.1 he' with rfl | he'
      · exact ha
      · exact hlt e' he'
    · next ha =>
      have hea : e.key < a.key :=
        Std.lt_of_le_of_ne (UInt32.not_lt.1 ha) (hnew a List.mem_cons_self).symm
      refine List.pairwise_cons.2 ⟨?_, List.pairwise_cons.2 ⟨hlt, hp⟩⟩
      intro e' he'
      rcases List.mem_cons.1 he' with rfl | he'
      · exact hea
      · exact UInt32.lt_trans hea (hlt e' he')

theorem pairwise_redirect {n : TrieNode} (h : n.edges.Pairwise (·.key < ·.key)) (key : UInt32)
    (child : Nat) : (n.redirect key child).edges.Pairwise (·.key < ·.key) := by
  refine List.pairwise_map.2 (h.imp ?_)
  intro a b hab
  split <;> split <;> exact hab

theorem mem_redirect {n : TrieNode} {key : UInt32} {child : Nat} {e : TrieEdge} :
    e ∈ (n.redirect key child).edges ↔
      (e ∈ n.edges ∧ e.key ≠ key) ∨
        (e = ⟨key, child⟩ ∧ ∃ e' ∈ n.edges, e'.key = key) := by
  simp only [redirect, List.mem_map]
  constructor
  · intro h
    obtain ⟨e', he', rfl⟩ := h
    by_cases hk : e'.key = key
    · rw [if_pos hk]
      exact Or.inr ⟨hk ▸ rfl, e', he', hk⟩
    · rw [if_neg hk]
      exact Or.inl ⟨he', hk⟩
  · intro h
    rcases h with ⟨he, hk⟩ | ⟨rfl, e', he', hk⟩
    · exact ⟨e, he, if_neg hk⟩
    · exact ⟨e', he', by rw [if_pos hk, ← hk]⟩

end TrieNode

namespace PrefixTrie

variable {t : PrefixTrie} {i j k : Nat} {u v w : Bytes}

/-! ## Tables of nodes -/

theorem getD_modify {a : Array TrieNode} {f : TrieNode → TrieNode} (hi : i < a.size) (j : Nat) :
    (a.modify i f).getD j {} = if j = i then f (a.getD i {}) else a.getD j {} := by
  simp only [Array.getD_eq_getD_getElem?, Array.getElem?_modify]
  by_cases h : j = i
  · rw [if_pos h.symm, if_pos h, h, Array.getElem?_eq_getElem hi]
    rfl
  · rw [if_neg (Ne.symm h), if_neg h]

theorem getD_push (a : Array TrieNode) (n : TrieNode) (j : Nat) :
    (a.push n).getD j {} = if j = a.size then n else a.getD j {} := by
  simp only [Array.getD_eq_getD_getElem?, Array.getElem?_push]
  split <;> rfl

/-! ## Extensions -/

/-- All walks of `t` are walks of `t'`, and a pattern that ends at a node of one of them ends at
this node of the other. -/
structure Extends (t t' : PrefixTrie) : Prop where
  size_le : t.nodes.size ≤ t'.nodes.size
  walk : ∀ {i w j}, t.Walk i w j → t'.Walk i w j
  positions_eq : ∀ j, (t'.node j).positions = (t.node j).positions
  exact_eq : ∀ j, (t'.node j).exact = (t.node j).exact

namespace Extends

theorem refl (t : PrefixTrie) : t.Extends t :=
  ⟨Nat.le_refl _, id, fun _ => rfl, fun _ => rfl⟩

theorem trans {t t' t'' : PrefixTrie} (h : t.Extends t') (h' : t'.Extends t'') : t.Extends t'' where
  size_le := h.size_le.trans h'.size_le
  walk hw := h'.walk (h.walk hw)
  positions_eq j := (h'.positions_eq j).trans (h.positions_eq j)
  exact_eq j := (h'.exact_eq j).trans (h.exact_eq j)

/-- An extension gives no old node another text. -/
theorem walk_iff {t t' : PrefixTrie} (h : t.Extends t') (ht : t.WellFormed) (ht' : t'.WellFormed)
    (hj : j < t.nodes.size) : t'.Walk 0 w j ↔ t.Walk 0 w j := by
  refine ⟨fun hw => ?_, h.walk⟩
  obtain ⟨w', hw'⟩ := ht.from_root hj
  rwa [ht'.text_unique hw (h.walk hw')]

end Extends

/-! ## New leaves -/

theorem node_addLeaf (hi : i < t.nodes.size) (v : Bytes) (j : Nat) :
    (t.addLeaf i v).1.node j =
      if j = t.nodes.size then { label := v }
      else if j = i then (t.node i).addEdge ⟨Utf8.leadKey v, t.nodes.size⟩ else t.node j := by
  rw [node, addLeaf, getD_push, Array.size_modify, getD_modify hi]
  rfl

theorem size_addLeaf (t : PrefixTrie) (i : Nat) (v : Bytes) :
    (t.addLeaf i v).1.nodes.size = t.nodes.size + 1 := by
  rw [addLeaf, Array.size_push, Array.size_modify]

theorem label_addLeaf (hi : i < t.nodes.size) (v : Bytes) (j : Nat) :
    ((t.addLeaf i v).1.node j).label = if j = t.nodes.size then v else (t.node j).label := by
  rw [node_addLeaf hi]
  split
  · rfl
  · split
    · next h => rw [h]; rfl
    · rfl

theorem mem_edges_addLeaf (hi : i < t.nodes.size) {e : TrieEdge} :
    e ∈ ((t.addLeaf i v).1.node j).edges ↔
      e ∈ (t.node j).edges ∨ (j = i ∧ e = ⟨Utf8.leadKey v, t.nodes.size⟩) := by
  rw [node_addLeaf hi]
  split
  · next h =>
    rw [h, node_of_size_le (Nat.le_refl _)]
    simp only [List.not_mem_nil, false_or, false_iff, not_and]
    omega
  · split
    · next h =>
      rw [h, TrieNode.addEdge, TrieNode.mem_insertEdge]
      simp only [true_and]
      exact or_comm
    · next h => simp only [h, false_and, or_false]

theorem edge_addLeaf (ht : t.WellFormed) (hi : i < t.nodes.size) :
    (t.addLeaf i v).1.Edge j w k ↔ t.Edge j w k ∨ (j = i ∧ w = v ∧ k = t.nodes.size) := by
  simp only [Edge, mem_edges_addLeaf hi, label_addLeaf hi]
  constructor
  · intro h
    obtain ⟨hl, e, he | ⟨hj, rfl⟩, rfl⟩ := h
    · have := ht.child_lt (edge_of_mem he)
      rw [if_neg (by omega)] at hl
      exact Or.inl ⟨hl, e, he, rfl⟩
    · rw [if_pos rfl] at hl
      exact Or.inr ⟨hj, hl.symm, rfl⟩
  · intro h
    rcases h with ⟨hl, e, he, rfl⟩ | ⟨rfl, rfl, rfl⟩
    · have := ht.child_lt (edge_of_mem he)
      exact ⟨by rw [if_neg (by omega), hl], e, Or.inl he, rfl⟩
    · exact ⟨if_pos rfl, _, Or.inr ⟨rfl, rfl⟩, rfl⟩

theorem entries_addLeaf (hi : i < t.nodes.size) (v : Bytes) (j : Nat) :
    ((t.addLeaf i v).1.node j).positions = (t.node j).positions ∧
      ((t.addLeaf i v).1.node j).exact = (t.node j).exact := by
  rw [node_addLeaf hi]
  split
  · next h =>
    rw [h, node_of_size_le (Nat.le_refl _)]
    exact ⟨rfl, rfl⟩
  · split
    · next h =>
      rw [h]
      exact ⟨rfl, rfl⟩
    · exact ⟨rfl, rfl⟩

theorem extends_addLeaf (ht : t.WellFormed) (hi : i < t.nodes.size) (v : Bytes) :
    t.Extends (t.addLeaf i v).1 where
  size_le := by
    rw [size_addLeaf]
    exact Nat.le_succ _
  walk hw := hw.mono fun h => .single ((edge_addLeaf ht hi).2 (Or.inl h))
  positions_eq j := (entries_addLeaf hi v j).1
  exact_eq j := (entries_addLeaf hi v j).2

theorem wellFormed_addLeaf (ht : t.WellFormed) (hi : i < t.nodes.size) (hne : v ≠ [])
    (hv : Utf8.isValid v) (hnew : ∀ e ∈ (t.node i).edges, e.key ≠ Utf8.leadKey v) :
    (t.addLeaf i v).1.WellFormed where
  size_pos := by
    rw [size_addLeaf]
    exact Nat.succ_pos _
  child_pos h := by
    rcases (edge_addLeaf ht hi).1 h with h | ⟨-, -, rfl⟩
    · exact ht.child_pos h
    · exact ht.size_pos
  child_lt h := by
    rw [size_addLeaf]
    rcases (edge_addLeaf ht hi).1 h with h | ⟨-, -, rfl⟩
    · exact Nat.lt_succ_of_lt (ht.child_lt h)
    · exact Nat.lt_succ_self _
  parent_unique h h' := by
    rcases (edge_addLeaf ht hi).1 h with h | ⟨rfl, -, hk⟩
    · rcases (edge_addLeaf ht hi).1 h' with h' | ⟨-, -, hk⟩
      · exact ht.parent_unique h h'
      · exact absurd (hk ▸ ht.child_lt h) (Nat.lt_irrefl _)
    · rcases (edge_addLeaf ht hi).1 h' with h' | ⟨rfl, -, -⟩
      · exact absurd (hk ▸ ht.child_lt h') (Nat.lt_irrefl _)
      · rfl
  label_ne_nil h := by
    rcases (edge_addLeaf ht hi).1 h with h | ⟨-, rfl, -⟩
    · exact ht.label_ne_nil h
    · exact hne
  isValid_label h := by
    rcases (edge_addLeaf ht hi).1 h with h | ⟨-, rfl, -⟩
    · exact ht.isValid_label h
    · exact hv
  key_eq he := by
    rw [label_addLeaf hi]
    rcases (mem_edges_addLeaf hi).1 he with he | ⟨-, rfl⟩
    · have := ht.child_lt (edge_of_mem he)
      rw [if_neg (by omega), ht.key_eq he]
    · rw [if_pos rfl]
  sorted j := by
    rw [node_addLeaf hi]
    split
    · exact List.Pairwise.nil
    · split
      · exact TrieNode.pairwise_insertEdge (ht.sorted i) hnew
      · exact ht.sorted j
  from_root := by
    intro j hj
    rw [size_addLeaf] at hj
    by_cases hlt : j < t.nodes.size
    · obtain ⟨w, hw⟩ := ht.from_root hlt
      exact ⟨w, (extends_addLeaf ht hi v).walk hw⟩
    · obtain ⟨w, hw⟩ := ht.from_root hi
      refine ⟨w ++ v, ((extends_addLeaf ht hi v).walk hw).append (.single ?_)⟩
      exact (edge_addLeaf ht hi).2 (Or.inr ⟨rfl, rfl, by omega⟩)

/-! ## Split edges -/

theorem size_splitEdge (t : PrefixTrie) (i k n : Nat) :
    (t.splitEdge i k n).1.nodes.size = t.nodes.size + 1 := by
  rw [splitEdge, Array.size_push, Array.size_modify, Array.size_modify]

theorem node_splitEdge (hi : i < t.nodes.size) (hk : k < t.nodes.size) (n j : Nat) :
    (t.splitEdge i k n).1.node j =
      if j = t.nodes.size then
        { label := (t.node k).label.take n
          edges := [⟨Utf8.leadKey ((t.node k).label.drop n), k⟩] }
      else
        let node :=
          if j = i then (t.node i).redirect (Utf8.leadKey (t.node k).label) t.nodes.size
          else t.node j
        if j = k then { node with label := (t.node k).label.drop n } else node := by
  rw [node, splitEdge, getD_push, Array.size_modify, Array.size_modify,
    getD_modify (by rwa [Array.size_modify]), getD_modify hi, getD_modify hi]
  by_cases hj : j = t.nodes.size
  · rw [if_pos hj, if_pos hj]
  rw [if_neg hj, if_neg hj]
  by_cases hjk : j = k
  · subst hjk
    rw [if_pos rfl]
    exact (if_pos rfl).symm
  · rw [if_neg hjk]
    exact (if_neg hjk).symm

theorem label_splitEdge (hi : i < t.nodes.size) (hk : k < t.nodes.size) (n j : Nat) :
    ((t.splitEdge i k n).1.node j).label =
      if j = t.nodes.size then (t.node k).label.take n
      else if j = k then (t.node k).label.drop n else (t.node j).label := by
  rw [node_splitEdge hi hk]
  split
  · rfl
  · dsimp only
    split
    · rfl
    · split
      · next h => rw [h]; rfl
      · rfl

/-- The edge to the child is replaced by one to the new node and one from there. -/
theorem mem_edges_splitEdge (ht : t.WellFormed) (h : t.Edge i v k) {n : Nat} {e : TrieEdge} :
    e ∈ ((t.splitEdge i k n).1.node j).edges ↔
      (e ∈ (t.node j).edges ∧ e.child ≠ k) ∨
        (j = i ∧ e = ⟨Utf8.leadKey v, t.nodes.size⟩) ∨
        (j = t.nodes.size ∧ e = ⟨Utf8.leadKey (v.drop n), k⟩) := by
  have hi := h.lt_size
  have hedges : ((t.splitEdge i k n).1.node j).edges =
      if j = t.nodes.size then [⟨Utf8.leadKey (v.drop n), k⟩]
      else if j = i then ((t.node i).redirect (Utf8.leadKey v) t.nodes.size).edges
      else (t.node j).edges := by
    rw [node_splitEdge hi (ht.child_lt h), h.1]
    split
    · rfl
    · dsimp only
      split <;> split <;> rfl
  obtain ⟨rfl, c, hc, rfl⟩ := h
  rw [hedges]
  by_cases hj : j = t.nodes.size
  · rw [if_pos hj, List.mem_singleton]
    simp only [hj, node_of_size_le (Nat.le_refl _), List.not_mem_nil, true_and, false_and, false_or]
    rw [or_iff_right fun hx => Nat.ne_of_gt hi hx.1]
  rw [if_neg hj]
  by_cases hji : j = i
  · subst hji
    simp only [if_pos, hj, TrieNode.mem_redirect, true_and, false_and, or_false]
    -- Within a node, an edge leads to the child if it has the key of its label.
    have hkey : ∀ e' ∈ (t.node j).edges, e'.key = Utf8.leadKey (t.node c.child).label ↔
        e'.child = c.child := by
      intro e' he'
      constructor
      · intro hk
        rw [ht.edge_unique he' hc (hk.trans (ht.key_eq hc).symm)]
      · intro hk
        rw [ht.key_eq he', hk]
    refine or_congr (and_congr_right fun he => not_congr (hkey e he)) ?_
    exact and_iff_left ⟨c, hc, ht.key_eq hc⟩
  · simp only [hji, hj, false_and, or_false]
    refine (and_iff_left_of_imp fun he hk => ?_).symm
    exact hji (ht.parent_unique (edge_of_mem he) (hk ▸ edge_of_mem hc))

theorem edge_splitEdge (ht : t.WellFormed) (h : t.Edge i v k) {n i' j' : Nat} :
    (t.splitEdge i k n).1.Edge i' w j' ↔
      (t.Edge i' w j' ∧ j' ≠ k) ∨ (i' = i ∧ w = v.take n ∧ j' = t.nodes.size) ∨
        (i' = t.nodes.size ∧ w = v.drop n ∧ j' = k) := by
  have hk := ht.child_lt h
  simp only [Edge, mem_edges_splitEdge ht h, label_splitEdge h.lt_size hk, h.1]
  constructor
  · intro h
    obtain ⟨hl, e, ⟨he, hne⟩ | ⟨rfl, rfl⟩ | ⟨rfl, rfl⟩, rfl⟩ := h
    · have := ht.child_lt (edge_of_mem he)
      rw [if_neg (by omega), if_neg hne] at hl
      exact Or.inl ⟨⟨hl, e, he, rfl⟩, hne⟩
    · rw [if_pos rfl] at hl
      exact Or.inr (Or.inl ⟨rfl, hl.symm, rfl⟩)
    · rw [if_neg (Nat.ne_of_lt hk), if_pos rfl] at hl
      exact Or.inr (Or.inr ⟨rfl, hl.symm, rfl⟩)
  · intro h
    rcases h with ⟨⟨hl, e, he, rfl⟩, hne⟩ | ⟨rfl, rfl, rfl⟩ | ⟨rfl, rfl, rfl⟩
    · have := ht.child_lt (edge_of_mem he)
      exact ⟨by rw [if_neg (by omega), if_neg hne, hl], e, Or.inl ⟨he, hne⟩, rfl⟩
    · exact ⟨if_pos rfl, _, Or.inr (Or.inl ⟨rfl, rfl⟩), rfl⟩
    · exact ⟨by rw [if_neg (Nat.ne_of_lt hk), if_pos rfl], _, Or.inr (Or.inr ⟨rfl, rfl⟩), rfl⟩

theorem edge_splitEdge_above (ht : t.WellFormed) (h : t.Edge i v k) (n : Nat) :
    (t.splitEdge i k n).1.Edge i (v.take n) t.nodes.size :=
  (edge_splitEdge ht h).2 (Or.inr (Or.inl ⟨rfl, rfl, rfl⟩))

theorem edge_splitEdge_below (ht : t.WellFormed) (h : t.Edge i v k) (n : Nat) :
    (t.splitEdge i k n).1.Edge t.nodes.size (v.drop n) k :=
  (edge_splitEdge ht h).2 (Or.inr (Or.inr ⟨rfl, rfl, rfl⟩))

theorem entries_splitEdge (hi : i < t.nodes.size) (hk : k < t.nodes.size) (n j : Nat) :
    ((t.splitEdge i k n).1.node j).positions = (t.node j).positions ∧
      ((t.splitEdge i k n).1.node j).exact = (t.node j).exact := by
  rw [node_splitEdge hi hk]
  split
  · next hj =>
    rw [hj, node_of_size_le (Nat.le_refl _)]
    exact ⟨rfl, rfl⟩
  · by_cases hj : j = i
    · subst hj
      dsimp only
      rw [if_pos rfl]
      split <;> exact ⟨rfl, rfl⟩
    · dsimp only
      rw [if_neg hj]
      split <;> exact ⟨rfl, rfl⟩

theorem extends_splitEdge (ht : t.WellFormed) (h : t.Edge i v k) (n : Nat) :
    t.Extends (t.splitEdge i k n).1 where
  size_le := by
    rw [size_splitEdge]
    exact Nat.le_succ _
  walk hw := by
    refine hw.mono fun {i' w j'} hedge => ?_
    by_cases hk : j' = k
    · -- The split edge is walked by way of the new node.
      subst hk
      obtain rfl := ht.parent_unique h hedge
      rw [← hedge.1, h.1, ← List.take_append_drop n v]
      exact .append (.single (edge_splitEdge_above ht h n)) (.single (edge_splitEdge_below ht h n))
    · exact .single ((edge_splitEdge ht h).2 (Or.inl ⟨hedge, hk⟩))
  positions_eq j := (entries_splitEdge h.lt_size (ht.child_lt h) n j).1
  exact_eq j := (entries_splitEdge h.lt_size (ht.child_lt h) n j).2

theorem wellFormed_splitEdge (ht : t.WellFormed) (h : t.Edge i v k) {n : Nat} (hpos : 0 < n)
    (hlt : n < v.length) (hn : Utf8.IsBoundary v n) : (t.splitEdge i k n).1.WellFormed where
  size_pos := by
    rw [size_splitEdge]
    exact Nat.succ_pos _
  child_pos hedge := by
    rcases (edge_splitEdge ht h).1 hedge with ⟨hedge, -⟩ | ⟨-, -, rfl⟩ | ⟨-, -, rfl⟩
    · exact ht.child_pos hedge
    · exact ht.size_pos
    · exact ht.child_pos h
  child_lt hedge := by
    rw [size_splitEdge]
    rcases (edge_splitEdge ht h).1 hedge with ⟨hedge, -⟩ | ⟨-, -, rfl⟩ | ⟨-, -, rfl⟩
    · exact Nat.lt_succ_of_lt (ht.child_lt hedge)
    · exact Nat.lt_succ_self _
    · exact Nat.lt_succ_of_lt (ht.child_lt h)
  parent_unique h₁ h₂ := by
    have hk := ht.child_lt h
    rcases (edge_splitEdge ht h).1 h₁ with
        ⟨h₁, hne₁⟩ | ⟨hi₁, -, hj₁⟩ | ⟨hi₁, -, hj₁⟩ <;>
      rcases (edge_splitEdge ht h).1 h₂ with
        ⟨h₂, hne₂⟩ | ⟨hi₂, -, hj₂⟩ | ⟨hi₂, -, hj₂⟩
    · exact ht.parent_unique h₁ h₂
    · exact absurd (hj₂ ▸ ht.child_lt h₁) (Nat.lt_irrefl _)
    · exact absurd hj₂ hne₁
    · exact absurd (hj₁ ▸ ht.child_lt h₂) (Nat.lt_irrefl _)
    · rw [hi₁, hi₂]
    · omega
    · exact absurd hj₁ hne₂
    · omega
    · rw [hi₁, hi₂]
  label_ne_nil hedge := by
    rcases (edge_splitEdge ht h).1 hedge with ⟨hedge, -⟩ | ⟨-, rfl, -⟩ | ⟨-, rfl, -⟩
    · exact ht.label_ne_nil hedge
    · exact List.ne_nil_of_length_pos (by rw [List.length_take]; omega)
    · exact List.ne_nil_of_length_pos (by rw [List.length_drop]; omega)
  isValid_label hedge := by
    rcases (edge_splitEdge ht h).1 hedge with ⟨hedge, -⟩ | ⟨-, rfl, -⟩ | ⟨-, rfl, -⟩
    · exact ht.isValid_label hedge
    · exact Utf8.isValid_take (ht.isValid_label h) hn
    · exact Utf8.isValid_drop (ht.isValid_label h) hn
  key_eq he := by
    have hk := ht.child_lt h
    rw [label_splitEdge h.lt_size hk, h.1]
    rcases (mem_edges_splitEdge ht h).1 he with ⟨he, hne⟩ | ⟨-, rfl⟩ | ⟨-, rfl⟩
    · have := ht.child_lt (edge_of_mem he)
      rw [if_neg (by omega), if_neg hne, ht.key_eq he]
    · -- The part of the label in front keeps its key.
      rw [if_pos rfl]
      refine (Utf8.leadKey_eq_of_prefix (Utf8.isValid_take (ht.isValid_label h) hn) ?_
        (List.take_prefix n v)).symm
      exact List.ne_nil_of_length_pos (by rw [List.length_take]; omega)
    · rw [if_neg (Nat.ne_of_lt hk), if_pos rfl]
  sorted j := by
    rw [node_splitEdge h.lt_size (ht.child_lt h)]
    split
    · exact List.pairwise_singleton _ _
    · dsimp only
      split <;> split
      · exact TrieNode.pairwise_redirect (ht.sorted i) _ _
      · exact ht.sorted j
      · exact TrieNode.pairwise_redirect (ht.sorted i) _ _
      · exact ht.sorted j
  from_root := by
    intro j hj
    rw [size_splitEdge] at hj
    by_cases hlt : j < t.nodes.size
    · obtain ⟨w, hw⟩ := ht.from_root hlt
      exact ⟨w, (extends_splitEdge ht h n).walk hw⟩
    · obtain ⟨w, hw⟩ := ht.from_root h.lt_size
      obtain rfl : j = t.nodes.size := by omega
      exact ⟨_, ((extends_splitEdge ht h n).walk hw).append
        (.single (edge_splitEdge_above ht h n))⟩

/-! ## Followed edges -/

/-- The label of the edge that an insertion follows shares a sequence with the text. -/
theorem exists_shared_sequence (ht : t.WellFormed) {text : Bytes} (hne : text ≠ [])
    (htext : Utf8.isValid text) (h : (t.node i).child? (Utf8.leadKey text) = some k) :
    ∃ q, Utf8.Sequence q ∧ q <+: (t.node k).label ∧ q <+: text ∧
      q.length ≤ t.sharedLength k text := by
  obtain ⟨v, hedge, hkey⟩ := ht.edge_of_child? h
  rw [sharedLength, hedge.1]
  exact Utf8.exists_shared_sequence (ht.isValid_label hedge) htext (ht.label_ne_nil hedge) hne hkey

theorem sharedLength_pos (ht : t.WellFormed) {text : Bytes} (hne : text ≠ [])
    (htext : Utf8.isValid text) (h : (t.node i).child? (Utf8.leadKey text) = some k) :
    0 < t.sharedLength k text := by
  obtain ⟨q, hq, -, -, hlen⟩ := exists_shared_sequence ht hne htext h
  exact (List.length_pos_iff.2 hq.ne_nil).trans_le hlen

end PrefixTrie

end RouteTable
