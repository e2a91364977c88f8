import RouteTable.Proofs.Index.Collection
import RouteTable.Proofs.Utf8.Shared

/-!
# How a trie grows

From the root alone, texts are inserted and patterns are put at nodes, any number of times.

* `PrefixTrie.Change`: what is done to a trie
* `WellFormed.existsUnique_edge`: every node but the root is at the end of one edge
* `size_insertBelow_le`: an insertion adds at most two nodes
* `insertBelow_of_walk`: a text that a node spells is not inserted again
* `wellFormed_apply`, `grown_applyAll`: what changes keep of a trie
* `insert_applyAll`: what one more insertion does after any row of changes
-/

namespace RouteTable.PrefixTrie

variable {t : PrefixTrie} {i j k : Nat} {u v w text : Bytes}

/-! ## Changes -/

inductive Change where
  | insert (text : Bytes)
  /-- Lets a pattern end at node `i`. -/
  | put (i : Nat) (e : IndexEntry)
  deriving DecidableEq, Repr

def apply (t : PrefixTrie) : Change → PrefixTrie
  | .insert text => (t.insert text).1
  | .put i e => { nodes := t.nodes.modify i (·.addEntry e) }

def applyAll (t : PrefixTrie) (changes : List Change) : PrefixTrie :=
  changes.foldl apply t

theorem applyAll_append (t : PrefixTrie) (changes changes' : List Change) :
    t.applyAll (changes ++ changes') = (t.applyAll changes).applyAll changes' :=
  List.foldl_append

def Change.texts (changes : List Change) : List Bytes :=
  changes.filterMap fun
    | .insert text => some text
    | .put _ _ => none

theorem Change.texts_append (changes changes' : List Change) :
    texts (changes ++ changes') = texts changes ++ texts changes' :=
  List.filterMap_append

/-! ## Incoming edges -/

/-- Every node but the root is at the end of exactly one edge. -/
theorem WellFormed.existsUnique_edge (ht : t.WellFormed) (h₀ : 0 < j) (hj : j < t.nodes.size) :
    ∃! p : Nat × TrieEdge, p.2 ∈ (t.node p.1).edges ∧ p.2.child = j := by
  obtain ⟨w, hw⟩ := ht.from_root hj
  rcases hw.eq_nil_or_last with ⟨-, rfl⟩ | ⟨u, v, i, -, ⟨-, e, he, rfl⟩, -⟩
  · exact absurd h₀ (Nat.lt_irrefl 0)
  refine ⟨(i, e), ⟨he, rfl⟩, fun p hp => ?_⟩
  obtain ⟨i', e'⟩ := p
  obtain ⟨he', hchild⟩ := hp
  dsimp only at he' hchild
  obtain rfl : i' = i := ht.parent_unique (hchild ▸ edge_of_mem he') (edge_of_mem he)
  rw [ht.edge_unique he' he ((ht.key_eq he').trans (hchild ▸ (ht.key_eq he).symm))]

/-! ## The number of nodes -/

/-- Behind a split edge there is no child for what is left of the text. -/
theorem child?_middle (ht : t.WellFormed) (h : t.Edge i v k) (htext : Utf8.isValid text)
    (hlt : Utf8.sharedPrefixLength v text < v.length)
    (hleft : Utf8.sharedPrefixLength v text < text.length) :
    ((t.splitEdge i k (Utf8.sharedPrefixLength v text)).1.node t.nodes.size).child?
      (Utf8.leadKey (text.drop (Utf8.sharedPrefixLength v text))) = none := by
  have hkey := Utf8.leadKey_drop_ne (ht.isValid_label h) htext hlt hleft
  rw [node_splitEdge h.lt_size (ht.child_lt h), if_pos rfl, h.1, TrieNode.child?,
    Option.map_eq_none_iff, sortedFind?_eq_none_iff (List.pairwise_singleton _ _)]
  intro e he
  rw [List.mem_singleton.1 he]
  exact hkey

theorem size_insertBelow_le_succ
    (hc : text ≠ [] → (t.node i).child? (Utf8.leadKey text) = none) :
    (t.insertBelow i text).1.nodes.size ≤ t.nodes.size + 1 := by
  rw [insertBelow]
  split
  · exact Nat.le_succ _
  · next hne =>
    rw [hc hne]
    exact Nat.le_of_eq (size_addLeaf t i text)

/-- An insertion adds at most two nodes, one that splits an edge and one behind it. -/
theorem size_insertBelow_le (ht : t.WellFormed) (htext : Utf8.isValid text) :
    (t.insertBelow i text).1.nodes.size ≤ t.nodes.size + 2 := by
  fun_induction insertBelow t i text with
  | case1 => exact Nat.le_add_right _ _
  | case2 t i text hne hc =>
    rw [size_addLeaf]
    exact Nat.le_succ _
  | case3 => exact Nat.le_add_right _ _
  | case4 t i text hne child hc hpos hlt split middle hsplit ih =>
    obtain ⟨v, hedge, -⟩ := ht.edge_of_child? hc
    have hsize := size_splitEdge t i child (t.sharedLength child text)
    have hmiddle : middle = t.nodes.size := (congrArg Prod.snd hsplit).symm
    obtain rfl : (t.splitEdge i child (t.sharedLength child text)).1 = split :=
      congrArg Prod.fst hsplit
    refine (size_insertBelow_le_succ fun hne' => ?_).trans (by omega)
    simp only [sharedLength, hedge.1] at hlt hne' ⊢
    rw [hmiddle]
    exact child?_middle ht hedge htext hlt (by simpa using hne')
  | case5 t i text hne child hc hpos hlt ih =>
    obtain ⟨v, hedge, -⟩ := ht.edge_of_child? hc
    refine ih ht (Utf8.isValid_drop htext ?_)
    exact Utf8.isBoundary_sharedPrefixLength_right _ _

/-! ## Texts that are there -/

theorem insertBelow_of_walk (ht : t.WellFormed) (h : t.Walk i text j) :
    t.insertBelow i text = (t, j) := by
  induction h with
  | nil i => rw [insertBelow, if_pos rfl]
  | @cons i k j v w first rest ih =>
    have hv := ht.isValid_label first
    have hne := ht.label_ne_nil first
    have hvw := (Walk.cons first rest).isValid ht
    have hc : (t.node i).child? (Utf8.leadKey (v ++ w)) = some k := by
      rw [← Utf8.leadKey_eq_of_prefix hv hne (List.prefix_append v w)]
      exact ht.child?_of_edge first
    have hlen : t.sharedLength k (v ++ w) = v.length := by
      rw [sharedLength, first.1, ← Utf8.length_shared,
        Utf8.shared_eq_left hv hvw (List.prefix_append v w)]
    have hpos := List.length_pos_iff.2 hne
    rw [insertBelow, if_neg (List.append_ne_nil_of_left_ne_nil hne w), hc]
    dsimp only
    rw [hlen, first.1, if_neg (Nat.ne_of_gt hpos), if_neg (Nat.lt_irrefl _), List.drop_left, ih]

/-! ## Rows of changes -/

theorem modify_of_size_le {a : Array TrieNode} {f : TrieNode → TrieNode} (h : a.size ≤ i) :
    a.modify i f = a := by
  apply Array.ext_getElem?
  intro j
  rw [Array.getElem?_modify]
  split
  · next hij => rw [← hij, Array.getElem?_eq_none h]; rfl
  · rfl

theorem wellFormed_apply (ht : t.WellFormed) {change : Change}
    (hvalid : ∀ text ∈ Change.texts [change], Utf8.isValid text) :
    (t.apply change).WellFormed := by
  cases change with
  | insert text =>
    exact (inserted_insertBelow ht ht.size_pos (hvalid text List.mem_cons_self)).wellFormed
  | put i e =>
    by_cases hi : i < t.nodes.size
    · exact ht.congr (label_edges_modify hi) Array.size_modify
    · rwa [apply, modify_of_size_le (Nat.not_lt.1 hi)]

theorem size_apply_le (ht : t.WellFormed) {change : Change}
    (hvalid : ∀ text ∈ Change.texts [change], Utf8.isValid text) :
    (t.apply change).nodes.size ≤ t.nodes.size + 2 * (Change.texts [change]).length := by
  cases change with
  | insert text => exact size_insertBelow_le ht (hvalid text List.mem_cons_self)
  | put i e => exact Nat.le_of_eq Array.size_modify

/-- A row of changes keeps a trie well-formed, and adds at most two nodes for each text. -/
theorem grown_applyAll (ht : t.WellFormed) {changes : List Change}
    (hvalid : ∀ text ∈ Change.texts changes, Utf8.isValid text) :
    (t.applyAll changes).WellFormed ∧
      (t.applyAll changes).nodes.size ≤ t.nodes.size + 2 * (Change.texts changes).length := by
  induction changes generalizing t with
  | nil => exact ⟨ht, Nat.le_refl _⟩
  | cons change changes ih =>
    have htexts : Change.texts (change :: changes) =
        Change.texts [change] ++ Change.texts changes :=
      Change.texts_append [change] changes
    rw [htexts] at hvalid ⊢
    obtain ⟨hchange, hchanges⟩ := List.forall_mem_append.1 hvalid
    obtain ⟨hwf, hle⟩ := ih (wellFormed_apply ht hchange) hchanges
    have hstep := size_apply_le ht hchange
    refine ⟨hwf, hle.trans ?_⟩
    rw [List.length_append]
    omega

theorem ofEntries_concat (entries : List IndexEntry) (e : IndexEntry) :
    ofEntries (entries ++ [e]) = (ofEntries entries).add e :=
  List.foldl_concat add root e entries

/-- The trie of some entries comes of such changes. -/
theorem exists_applyAll_eq_ofEntries (entries : List IndexEntry) :
    ∃ changes, Change.texts changes = entries.map (·.text) ∧
      root.applyAll changes = ofEntries entries := by
  induction entries using List.reverseRecOn with
  | nil => exact ⟨[], rfl, rfl⟩
  | append_singleton entries e ih =>
    obtain ⟨changes, htexts, hall⟩ := ih
    refine ⟨changes ++ [.insert e.text, .put ((ofEntries entries).insert e.text).2 e], ?_, ?_⟩
    · rw [Change.texts_append, htexts, List.map_append]
      rfl
    · rw [applyAll_append, hall, ofEntries_concat]
      rfl

/-- After any row of changes the nodes are a tree with whole sequences on its edges, and each node
spells one text. One more insertion returns a node that spells the text, leaves to every node its
text and the patterns that end there, adds at most two nodes, and none if the text was spelled
before. -/
theorem insert_applyAll {changes : List Change}
    (hvalid : ∀ text ∈ Change.texts changes, Utf8.isValid text)
    (hcount : (Change.texts changes).length < 2 ^ 31) :
    let t := root.applyAll changes
    t.WellFormed ∧ t.nodes.size < 2 ^ 32 ∧
    (∀ j, 0 < j → j < t.nodes.size →
      (∃! p : Nat × TrieEdge, p.2 ∈ (t.node p.1).edges ∧ p.2.child = j) ∧
        (t.node j).label ≠ [] ∧ Utf8.isValid (t.node j).label) ∧
    (∀ j < t.nodes.size, ∃! w, t.Walk 0 w j) ∧
    ∀ text, Utf8.isValid text →
      let r := t.insert text
      r.1.Walk 0 text r.2 ∧ r.2 < r.1.nodes.size ∧ r.1.nodes.size ≤ t.nodes.size + 2 ∧
      (∀ j < t.nodes.size, (∀ w, r.1.Walk 0 w j ↔ t.Walk 0 w j) ∧
        (r.1.node j).positions = (t.node j).positions ∧ (r.1.node j).exact = (t.node j).exact) ∧
      ∀ j, t.Walk 0 text j → r = (t, j) := by
  intro t
  obtain ⟨ht, hsize⟩ :
      t.WellFormed ∧ t.nodes.size ≤ 1 + 2 * (Change.texts changes).length :=
    grown_applyAll wellFormed_root hvalid
  refine ⟨ht, by omega, fun j h₀ hj => ?_, fun j hj => ?_, fun text htext => ?_⟩
  · obtain ⟨p, ⟨hp, rfl⟩, hp'⟩ := ht.existsUnique_edge h₀ hj
    have hedge := edge_of_mem hp
    exact ⟨⟨p, ⟨hp, rfl⟩, hp'⟩, ht.label_ne_nil hedge, ht.isValid_label hedge⟩
  · obtain ⟨w, hw⟩ := ht.from_root hj
    exact ⟨w, hw, fun w' hw' => ht.text_unique hw' hw⟩
  · intro r
    obtain ⟨hwf, hext, hwalk⟩ := inserted_insertBelow ht ht.size_pos htext
    have hlt := hwalk.lt_size hwf hwf.size_pos
    refine ⟨hwalk, hlt, size_insertBelow_le ht htext, fun j hj => ?_,
      fun j => insertBelow_of_walk ht⟩
    exact ⟨fun w => hext.walk_iff ht hwf hj, hext.positions_eq j, hext.exact_eq j⟩

/-- An edge that is split between characters with the same first byte, and two more insertions, one
of a new text and one of a text that is there. -/
theorem insert_applyAll_split :
    let changes : List Change :=
      [.insert (.ofString "/üb"), .put 1 ⟨0, .ofString "/üb", true⟩, .insert (.ofString "/ö")]
    let t := root.applyAll changes
    t.nodes.size = 4 ∧ t.WellFormed ∧ t.insert (.ofString "/üb") = (t, 1) ∧
      (∃! p : Nat × TrieEdge, p.2 ∈ (t.node p.1).edges ∧ p.2.child = 1) ∧
      ((t.insert (.ofString "/üc")).1.node 1).exact = some 0 ∧
      (t.insert (.ofString "/üc")).1.Walk 0 (.ofString "/üb") 1 := by
  intro changes t
  have hsize : t.nodes.size = 4 := by decide +kernel
  obtain ⟨ht, -, hedge, -, hinsert⟩ := @insert_applyAll changes (by decide +kernel) (by decide)
  obtain ⟨hwalk, -⟩ := hinsert (.ofString "/üb") (by decide +kernel)
  have hnode : (t.insert (.ofString "/üb")).1 = t ∧ (t.insert (.ofString "/üb")).2 = 1 := by
    decide +kernel
  rw [hnode.1, hnode.2] at hwalk
  obtain ⟨-, -, -, hold, -⟩ := hinsert (.ofString "/üc") (by decide +kernel)
  obtain ⟨htext, -, hexact⟩ := hold 1 (by rw [hsize]; decide)
  refine ⟨hsize, ht, Prod.ext hnode.1 hnode.2, (hedge 1 Nat.one_pos (by rw [hsize]; decide)).1,
    ?_, (htext _).2 hwalk⟩
  rw [hexact]
  decide +kernel

end RouteTable.PrefixTrie
