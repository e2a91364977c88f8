import RouteTable.Proofs.Index.Turns

/-!
# What a trie holds and collects

* `PrefixTrie.Holds`: the patterns of the entries end at the nodes that spell their texts
* `holds_ofEntries`: the trie of some entries holds them
* `exact_insert_eq_none`: no literal pattern ends where one with another text is to be added
* `positions_collectBelow`, `exact_collectBelow`: a search collects from the nodes that are walked
  to along the path
* `answers_collect`: a trie answers for what it holds
-/

namespace RouteTable.PrefixTrie

variable {t t' : PrefixTrie} {i j k : Nat} {u v w path : Bytes} {entries : List IndexEntry}

/-- A well-formed trie where the patterns of the entries end at the nodes that spell their texts,
and no others end anywhere. -/
structure Holds (t : PrefixTrie) (entries : List IndexEntry) : Prop where
  wellFormed : t.WellFormed
  spelled : ∀ e ∈ entries, ∃ j, t.Walk 0 e.text j
  positions_eq : ∀ {w j}, t.Walk 0 w j → (t.node j).positions =
    (entries.filter fun e => !e.isLiteral && e.text == w).map (·.position)
  exact_eq : ∀ {w j}, t.Walk 0 w j → (t.node j).exact =
    (entries.filter fun e => e.isLiteral && e.text == w).getLast?.map (·.position)

/-! ## The trie of some entries -/

theorem node_root (i : Nat) : root.node i = {} := by
  cases i with
  | zero => rfl
  | succ i => exact node_of_size_le (Nat.succ_le_succ (Nat.zero_le i))

theorem not_edge_root : ¬ root.Edge i v j := by
  intro h
  obtain ⟨-, e, he, -⟩ := h
  rw [node_root] at he
  exact absurd he List.not_mem_nil

theorem wellFormed_root : root.WellFormed where
  size_pos := Nat.one_pos
  child_pos h := absurd h not_edge_root
  child_lt h := absurd h not_edge_root
  parent_unique h := absurd h not_edge_root
  label_ne_nil h := absurd h not_edge_root
  isValid_label h := absurd h not_edge_root
  key_eq he := absurd (edge_of_mem he) not_edge_root
  sorted i := by
    rw [node_root]
    exact List.Pairwise.nil
  from_root := by
    intro j hj
    obtain rfl : j = 0 := Nat.lt_one_iff.1 hj
    exact ⟨[], .nil 0⟩

theorem holds_root : root.Holds [] where
  wellFormed := wellFormed_root
  spelled e he := absurd he List.not_mem_nil
  positions_eq _ := by rw [node_root]; rfl
  exact_eq _ := by rw [node_root]; rfl

/-- An extension holds the same entries. At the new nodes no pattern ends. -/
theorem Holds.of_extends (h : t.Holds entries) (ht' : t'.WellFormed) (hext : t.Extends t') :
    t'.Holds entries := by
  -- A node of the extension that spells the text of an entry is a node of `t`.
  have hold : ∀ {w j}, t'.Walk 0 w j → t.Walk 0 w j ∨
      (t.node j = {} ∧ ∀ e ∈ entries, e.text ≠ w) := by
    intro w j hw
    by_cases hj : j < t.nodes.size
    · exact Or.inl ((hext.walk_iff h.wellFormed ht' hj).1 hw)
    · refine Or.inr ⟨node_of_size_le (Nat.not_lt.1 hj), ?_⟩
      rintro e he rfl
      obtain ⟨j', hj'⟩ := h.spelled e he
      rw [ht'.node_unique hw (hext.walk hj')] at hj
      exact hj (hj'.lt_size h.wellFormed h.wellFormed.size_pos)
  refine ⟨ht', fun e he => ?_, fun {w j} hw => ?_, fun {w j} hw => ?_⟩
  · obtain ⟨j, hj⟩ := h.spelled e he
    exact ⟨j, hext.walk hj⟩
  · rw [hext.positions_eq]
    rcases hold hw with hw | ⟨hnode, hne⟩
    · exact h.positions_eq hw
    · rw [hnode, List.filter_eq_nil_iff.2]
      · rfl
      · intro e he
        simp [hne e he]
  · rw [hext.exact_eq]
    rcases hold hw with hw | ⟨hnode, hne⟩
    · exact h.exact_eq hw
    · rw [hnode, List.filter_eq_nil_iff.2]
      · rfl
      · intro e he
        simp [hne e he]

/-! ## Patterns at nodes -/

section AddEntry

variable {e : IndexEntry}

theorem node_modify_addEntry (hi : i < t.nodes.size) (e : IndexEntry) (j : Nat) :
    (PrefixTrie.mk (t.nodes.modify i (·.addEntry e))).node j =
      if j = i then (t.node i).addEntry e else t.node j :=
  getD_modify hi j

theorem label_edges_addEntry (n : TrieNode) (e : IndexEntry) :
    (n.addEntry e).label = n.label ∧ (n.addEntry e).edges = n.edges := by
  rw [TrieNode.addEntry]
  split <;> exact ⟨rfl, rfl⟩

theorem label_edges_modify (hi : i < t.nodes.size) (j : Nat) :
    ((PrefixTrie.mk (t.nodes.modify i (·.addEntry e))).node j).label = (t.node j).label ∧
      ((PrefixTrie.mk (t.nodes.modify i (·.addEntry e))).node j).edges = (t.node j).edges := by
  rw [node_modify_addEntry hi]
  split
  · next h => rw [h]; exact label_edges_addEntry _ e
  · exact ⟨rfl, rfl⟩

end AddEntry

theorem holds_add (h : t.Holds entries) {e : IndexEntry} (he : Utf8.isValid e.text) :
    (t.add e).Holds (entries ++ [e]) := by
  have hins := inserted_insertBelow h.wellFormed h.wellFormed.size_pos he
  rw [add, insert]
  generalize t.insertBelow 0 e.text = r at hins
  obtain ⟨t', i⟩ := r
  obtain ⟨hwf, hext, hwalk⟩ := hins
  have hi : i < t'.nodes.size := hwalk.lt_size hwf hwf.size_pos
  have hold := h.of_extends hwf hext
  have hsame := label_edges_modify (e := e) hi
  have hnode : ∀ {w j}, t'.Walk 0 w j →
      (PrefixTrie.mk (t'.nodes.modify i (·.addEntry e))).node j =
        if e.text = w then (t'.node j).addEntry e else t'.node j := by
    intro w j hw
    rw [node_modify_addEntry hi]
    by_cases hj : j = i
    · subst hj
      rw [if_pos rfl, if_pos (hwf.text_unique hwalk hw)]
    · rw [if_neg hj, if_neg]
      rintro rfl
      exact hj (hwf.node_unique hw hwalk)
  refine ⟨hwf.congr hsame Array.size_modify, ?_, fun {w j} hw => ?_, fun {w j} hw => ?_⟩
  · intro e' he'
    rcases List.mem_append.1 he' with he' | he'
    · obtain ⟨j, hj⟩ := hold.spelled e' he'
      exact ⟨j, (walk_congr hsame).2 hj⟩
    · rw [List.mem_singleton.1 he']
      exact ⟨i, (walk_congr hsame).2 hwalk⟩
  · have hw := (walk_congr hsame).1 hw
    rw [hnode hw, List.filter_append, List.map_append, ← hold.positions_eq hw]
    by_cases hew : e.text = w
    · cases hl : e.isLiteral <;> simp [TrieNode.addEntry, hew, hl]
    · simp [hew]
  · have hw := (walk_congr hsame).1 hw
    rw [hnode hw, List.filter_append, List.getLast?_append]
    by_cases hew : e.text = w
    · cases hl : e.isLiteral <;> simp [TrieNode.addEntry, hew, hl, hold.exact_eq hw]
    · simp [hew, hold.exact_eq hw]

theorem holds_ofEntries (h : ∀ e ∈ entries, Utf8.isValid e.text) :
    (ofEntries entries).Holds entries := by
  have hfold : ∀ (l l' : List IndexEntry) (t : PrefixTrie), (∀ e ∈ l, Utf8.isValid e.text) →
      t.Holds l' → (l.foldl add t).Holds (l' ++ l) := by
    intro l
    induction l with
    | nil =>
      intro l' t _ ht
      rwa [List.append_nil]
    | cons e l ih =>
      intro l' t hl ht
      have := ih (l' ++ [e]) (t.add e) (fun e' he' => hl e' (List.mem_cons_of_mem _ he'))
        (holds_add ht (hl e List.mem_cons_self))
      rwa [List.append_assoc] at this
  exact hfold entries [] root h holds_root

/-- Where a literal pattern is added that has another text than all before it, none ends. -/
theorem exact_insert_eq_none (h : ∀ e ∈ entries, Utf8.isValid e.text)
    {text : Bytes} (htext : Utf8.isValid text)
    (hnew : ∀ e ∈ entries, e.isLiteral → e.text ≠ text) :
    (((ofEntries entries).insert text).1.node ((ofEntries entries).insert text).2).exact =
      none := by
  have hholds := holds_ofEntries h
  obtain ⟨hwf, hext, hwalk⟩ :=
    inserted_insertBelow hholds.wellFormed hholds.wellFormed.size_pos htext
  rw [insert, (hholds.of_extends hwf hext).exact_eq hwalk, List.filter_eq_nil_iff.2]
  · rfl
  · intro e he
    rw [Bool.and_eq_true, beq_iff_eq]
    exact fun hl => hnew e he hl.1 hl.2

/-! ## The nodes along a path -/

/-- A walk along a path is empty or takes the edge with the key of the path. -/
theorem Walk.eq_nil_or_child (ht : t.WellFormed) (h : t.Walk i v j) (hv : v <+: path) :
    (v = [] ∧ i = j) ∨
      ∃ u w k, t.Edge i u k ∧ (t.node i).child? (Utf8.leadKey path) = some k ∧
        u <+: path ∧ t.Walk k w j ∧ v = u ++ w := by
  cases h with
  | nil => exact Or.inl ⟨rfl, rfl⟩
  | @cons _ k _ u w first rest =>
    have hu : u <+: path := (List.prefix_append u w).trans hv
    refine Or.inr ⟨u, w, k, first, ?_, hu, rest, rfl⟩
    rw [← Utf8.leadKey_eq_of_prefix (ht.isValid_label first) (ht.label_ne_nil first) hu]
    exact ht.child?_of_edge first

theorem positions_collectBelow (ht : t.WellFormed) (i : Nat) (path : Bytes) (s : PositionSet) :
    ∃ l : List UInt32, (t.collectBelow i path s).positions = l.foldl PositionSet.insert s ∧
      ∀ pos, pos ∈ l ↔
        ∃ v j, v <+: path ∧ t.Walk i v j ∧ pos ∈ (t.node j).positions := by
  fun_induction collectBelow t i path s with
  | case1 i s node positions =>
    refine ⟨node.positions, rfl, fun pos => ?_⟩
    constructor
    · intro hpos
      exact ⟨[], i, List.prefix_refl _, .nil i, hpos⟩
    · intro h
      obtain ⟨v, j, hv, hw, hpos⟩ := h
      obtain rfl := List.prefix_nil.1 hv
      obtain rfl := ht.eq_of_walk_nil hw
      exact hpos
  | case2 i path s node positions hne hc =>
    refine ⟨node.positions, rfl, fun pos => ?_⟩
    constructor
    · intro hpos
      exact ⟨[], i, List.nil_prefix, .nil i, hpos⟩
    · intro h
      obtain ⟨v, j, hv, hw, hpos⟩ := h
      rcases hw.eq_nil_or_child ht hv with ⟨-, rfl⟩ | ⟨_, _, _, -, hk, -⟩
      · exact hpos
      · rw [hc] at hk
        exact absurd hk (by simp)
  | case3 i path s node positions hne child hc hlabel ih =>
    obtain ⟨l, hl, hmem⟩ := ih
    refine ⟨node.positions ++ l, by rw [hl, List.foldl_append], fun pos => ?_⟩
    obtain ⟨u, hedge, -⟩ := ht.edge_of_child? hc
    rw [hedge.1] at hlabel hmem
    obtain ⟨rest, rfl⟩ := List.isPrefixOf_iff_prefix.1 hlabel.2
    rw [List.drop_left] at hmem
    rw [List.mem_append, hmem]
    constructor
    · intro h
      rcases h with hpos | ⟨v, j, hv, hw, hpos⟩
      · exact ⟨[], i, List.nil_prefix, .nil i, hpos⟩
      · exact ⟨u ++ v, j, (List.prefix_append_right_inj u).2 hv, .cons hedge hw, hpos⟩
    · intro h
      obtain ⟨v, j, hv, hw, hpos⟩ := h
      rcases hw.eq_nil_or_child ht hv with ⟨-, rfl⟩ | ⟨u', w, k, hedge', hk, hu', hw', rfl⟩
      · exact Or.inl hpos
      · obtain ⟨rfl, rfl⟩ := ht.edge_deterministic hedge hedge' (List.prefix_append u rest) hu'
        exact Or.inr ⟨w, j, (List.prefix_append_right_inj u).1 hv, hw', hpos⟩
  | case4 i path s node positions hne child hc hlabel =>
    refine ⟨node.positions, rfl, fun pos => ?_⟩
    constructor
    · intro hpos
      exact ⟨[], i, List.nil_prefix, .nil i, hpos⟩
    · intro h
      obtain ⟨v, j, hv, hw, hpos⟩ := h
      rcases hw.eq_nil_or_child ht hv with ⟨-, rfl⟩ | ⟨u, _, k, hedge, hk, hu, -⟩
      · exact hpos
      · obtain rfl := Option.some.inj (hc.symm.trans hk)
        rw [hedge.1] at hlabel
        exact absurd ⟨ht.label_ne_nil hedge, List.isPrefixOf_iff_prefix.2 hu⟩ hlabel

/-- A search finds what ends at the node that is walked to along the whole path. -/
theorem exact_collectBelow (ht : t.WellFormed) (i : Nat) (path : Bytes) (s : PositionSet)
    (pos : UInt32) :
    (t.collectBelow i path s).exact = some pos ↔
      ∃ j, t.Walk i path j ∧ (t.node j).exact = some pos := by
  fun_induction collectBelow t i path s with
  | case1 i s node positions =>
    constructor
    · exact fun h => ⟨i, .nil i, h⟩
    · intro h'
      obtain ⟨j, hw, h⟩ := h'
      rwa [← ht.eq_of_walk_nil hw] at h
  | case2 i path s node positions hne hc =>
    apply iff_of_false (by simp)
    intro h'
    obtain ⟨j, hw, -⟩ := h'
    rcases hw.eq_nil_or_child ht (List.prefix_refl _) with ⟨h, -⟩ | ⟨_, _, _, -, hk, -⟩
    · exact hne h
    · rw [hc] at hk
      exact absurd hk (by simp)
  | case3 i path s node positions hne child hc hlabel ih =>
    rw [ih]
    obtain ⟨u, hedge, -⟩ := ht.edge_of_child? hc
    rw [hedge.1] at hlabel ⊢
    obtain ⟨rest, rfl⟩ := List.isPrefixOf_iff_prefix.1 hlabel.2
    rw [List.drop_left]
    constructor
    · intro h'
      obtain ⟨j, hw, h⟩ := h'
      exact ⟨j, .cons hedge hw, h⟩
    · intro h'
      obtain ⟨j, hw, h⟩ := h'
      exact ⟨j, ht.cancel (.single hedge) hw, h⟩
  | case4 i path s node positions hne child hc hlabel =>
    apply iff_of_false (by simp)
    intro h'
    obtain ⟨j, hw, -⟩ := h'
    rcases hw.eq_nil_or_child ht (List.prefix_refl _) with
      ⟨h, -⟩ | ⟨u, _, k, hedge, hk, hu, -⟩
    · exact hne h
    · obtain rfl := Option.some.inj (hc.symm.trans hk)
      rw [hedge.1] at hlabel
      exact absurd ⟨ht.label_ne_nil hedge, List.isPrefixOf_iff_prefix.2 hu⟩ hlabel

/-! ## Answers -/

theorem answers_collect (h : t.Holds entries) (hdist : IndexEntry.DistinctLiterals entries)
    (path : Bytes) (s : PositionSet) : (t.collect path s).Answers entries path s where
  exact_iff pos := by
    rw [collect, exact_collectBelow h.wellFormed]
    constructor
    · intro h'
      obtain ⟨j, hw, hex⟩ := h'
      rw [h.exact_eq hw, Option.map_eq_some_iff] at hex
      obtain ⟨e, he, rfl⟩ := hex
      have hm := List.mem_of_getLast? he
      rw [List.mem_filter, Bool.and_eq_true, beq_iff_eq] at hm
      exact ⟨e, hm.1, hm.2.1, hm.2.2, rfl⟩
    · intro h'
      obtain ⟨e, he, hl, rfl, rfl⟩ := h'
      obtain ⟨j, hj⟩ := h.spelled e he
      refine ⟨j, hj, ?_⟩
      have hmem : e ∈ entries.filter fun e' => e'.isLiteral && e'.text == e.text :=
        List.mem_filter.2 ⟨he, by simp [hl]⟩
      have hlast := List.getLast?_eq_some_getLast (List.ne_nil_of_mem hmem)
      have hm := List.mem_of_getLast? hlast
      rw [List.mem_filter, Bool.and_eq_true, beq_iff_eq] at hm
      rw [h.exact_eq hj, hlast, Option.map_some, hdist.eq_of_text_eq hm.1 he hm.2.1 hl hm.2.2]
  positions_eq := by
    obtain ⟨l, hl, hmem⟩ := positions_collectBelow h.wellFormed 0 path s
    refine ⟨l, hl, fun pos => (hmem pos).trans ?_⟩
    constructor
    · intro h'
      obtain ⟨v, j, hv, hw, hpos⟩ := h'
      rw [h.positions_eq hw, List.mem_map] at hpos
      obtain ⟨e, he, rfl⟩ := hpos
      rw [List.mem_filter, Bool.and_eq_true, beq_iff_eq, Bool.not_eq_true'] at he
      obtain ⟨hm, hlit, rfl⟩ := he
      exact ⟨e, hm, hlit, hv, rfl⟩
    · intro h'
      obtain ⟨e, he, hlit, hv, rfl⟩ := h'
      obtain ⟨j, hj⟩ := h.spelled e he
      refine ⟨e.text, j, hv, hj, ?_⟩
      rw [h.positions_eq hj]
      exact List.mem_map_of_mem (List.mem_filter.2 ⟨he, by simp [hlit]⟩)

end RouteTable.PrefixTrie
