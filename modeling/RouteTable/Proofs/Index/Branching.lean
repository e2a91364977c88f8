import RouteTable.Proofs.Index.Growth

/-!
# The texts that a trie spells

An insertion adds the node for its text, and the node where this text leaves an edge. That node
spells what the text shares with another one.

* `PrefixTrie.Spells`: some node spells a text
* `WellFormed.spells_shared`: what two texts of a trie share is spelled, too
* `Insertion.WellFormed.spellsWith_turn`: the texts that one turn of an insertion adds
* `spells_insert_iff`: the texts that an insertion adds
* `spells_ofEntries_iff`: the texts of the trie of some entries
* `WellFormed.size_eq_card`: there are as many nodes as texts
-/

namespace RouteTable.PrefixTrie

variable {t t' : PrefixTrie} {i j k : Nat} {a b u v w text : Bytes}

def Spells (t : PrefixTrie) (w : Bytes) : Prop :=
  ∃ j, t.Walk 0 w j

/-- The trie spells `w`, or is to do so when `text` is inserted: `w` is this text, or what it shares
with a text that is spelled. -/
def SpellsWith (t : PrefixTrie) (text w : Bytes) : Prop :=
  t.Spells w ∨ w = text ∨ ∃ a, t.Spells a ∧ w = Utf8.shared text a

/-! ## Shared texts -/

/-- Two walks from one node part at a node, which spells what their texts share. -/
theorem WellFormed.walk_shared (ht : t.WellFormed) (h : t.Walk i a j) (g : t.Walk i b k) :
    ∃ m, t.Walk i (Utf8.shared a b) m := by
  induction h generalizing b k with
  | nil i => exact ⟨i, .nil i⟩
  | @cons i l j v a first rest ih =>
    have hv := ht.isValid_label first
    have hva := (Walk.cons first rest).isValid ht
    rcases g.eq_nil_or_child ht (List.prefix_refl b) with
      ⟨rfl, -⟩ | ⟨v', b', l', first', -, -, rest', rfl⟩
    · rw [List.prefix_nil.1 (Utf8.shared_prefix_right _ _)]
      exact ⟨i, .nil i⟩
    by_cases hkey : Utf8.leadKey v = Utf8.leadKey v'
    · -- The walks have their first edge in common.
      obtain rfl := Option.some.inj
        ((ht.child?_of_edge first).symm.trans (hkey ▸ ht.child?_of_edge first'))
      obtain rfl : v = v' := first.1.symm.trans first'.1
      obtain ⟨m, hm⟩ := ih rest'
      rw [Utf8.shared_append hv (rest.isValid ht) (rest'.isValid ht)]
      exact ⟨m, .cons first hm⟩
    · rw [Utf8.shared_eq_nil hva]
      · exact ⟨i, .nil i⟩
      · rwa [← Utf8.leadKey_eq_of_prefix hv (ht.label_ne_nil first) (List.prefix_append v a),
          ← Utf8.leadKey_eq_of_prefix (ht.isValid_label first') (ht.label_ne_nil first')
            (List.prefix_append v' b')]

theorem WellFormed.spells_shared (ht : t.WellFormed) (ha : t.Spells a) (hb : t.Spells b) :
    t.Spells (Utf8.shared a b) := by
  obtain ⟨j, hj⟩ := ha
  obtain ⟨k, hk⟩ := hb
  exact ht.walk_shared hj hk

/-! ## One insertion -/

/-- An extension by one node spells one more text. -/
theorem Extends.spells_or_eq (h : t.Extends t') (ht : t.WellFormed) (ht' : t'.WellFormed)
    (hsize : t'.nodes.size = t.nodes.size + 1) (hnew : t'.Walk 0 v t.nodes.size)
    (hw : t'.Spells w) : t.Spells w ∨ w = v := by
  obtain ⟨j, hj⟩ := hw
  have hlt := hj.lt_size ht' ht'.size_pos
  by_cases hold : j < t.nodes.size
  · exact Or.inl ⟨j, (h.walk_iff ht ht' hold).1 hj⟩
  · obtain rfl : j = t.nodes.size := by omega
    exact Or.inr (ht'.text_unique hj hnew)

theorem SpellsWith.shared (htext : Utf8.isValid text) (h : t.SpellsWith text a) :
    t.SpellsWith text (Utf8.shared text a) := by
  rcases h with h | rfl | ⟨b, hb, rfl⟩
  · exact Or.inr (Or.inr ⟨a, h, rfl⟩)
  · exact Or.inr (Or.inl (Utf8.shared_self htext))
  · refine Or.inr (Or.inr ⟨b, hb, ?_⟩)
    rw [Utf8.shared_comm]
    exact Utf8.shared_eq_left (Utf8.isValid_shared htext b) htext (Utf8.shared_prefix_left text b)

namespace Insertion.WellFormed

variable {s : Insertion}

/-- A new node spells the whole text, or what this shares with the text at the end of the edge that
is split. -/
theorem spellsWith_turn (h : s.WellFormed) (hu : s.trie.Walk 0 u s.node)
    (hw : s.turn.trie.Spells w) : s.trie.SpellsWith (u ++ s.rest) w := by
  obtain ⟨hturn, hext, -⟩ := h.turn_spec
  by_cases hne : s.rest = []
  · rw [turn_of_rest_eq_nil hne] at hw
    exact Or.inl hw
  cases hc : (s.trie.node s.node).child? (Utf8.leadKey s.rest) with
  | none =>
    rw [turn_of_none hne hc] at hw hturn hext
    have hedge := (edge_addLeaf (v := s.rest) h.trie h.node_lt).2 (Or.inr ⟨rfl, rfl, rfl⟩)
    exact (hext.spells_or_eq h.trie hturn.trie (size_addLeaf _ _ _)
      ((hext.walk hu).append (.single hedge)) hw).imp_right Or.inl
  | some child =>
    obtain ⟨v, hedge, -⟩ := h.trie.edge_of_child? hc
    have hv := h.trie.isValid_label hedge
    rw [turn_of_some hne hc] at hw hturn hext
    split at hw
    · next hlt =>
      rw [if_pos hlt] at hturn hext
      have habove := edge_splitEdge_above h.trie hedge (s.trie.sharedLength child s.rest)
      refine (hext.spells_or_eq h.trie hturn.trie (size_splitEdge _ _ _ _)
        ((hext.walk hu).append (.single habove)) hw).imp_right fun hw => Or.inr ⟨u ++ v, ?_, ?_⟩
      · exact ⟨child, hu.append (.single hedge)⟩
      · rw [Utf8.shared_append (hu.isValid h.trie) h.isValid_rest hv, Utf8.shared_comm, hw,
          sharedLength, hedge.1]
        rfl
    · exact Or.inl hw

theorem spellsWith_iterate_turn (h : s.WellFormed) (hu : s.trie.Walk 0 u s.node) {n : Nat}
    (hw : (Insertion.turn^[n] s).trie.Spells w) : s.trie.SpellsWith (u ++ s.rest) w := by
  induction n generalizing s u w with
  | zero => exact Or.inl hw
  | succ n ih =>
    obtain ⟨hext, v, hv, hrest⟩ := h.turn_spec.2
    have hlater := ih h.turn ((hext.walk hu).append hv) hw
    rw [List.append_assoc, hrest] at hlater
    have htext : Utf8.isValid (u ++ s.rest) :=
      (Utf8.isValid_append (hu.isValid h.trie) _).trans h.isValid_rest
    rcases hlater with hw | rfl | ⟨a, ha, rfl⟩
    · exact h.spellsWith_turn hu hw
    · exact Or.inr (Or.inl rfl)
    · exact (h.spellsWith_turn hu ha).shared htext

end Insertion.WellFormed

/-- An insertion adds the text, and what it shares with the texts that were spelled before. -/
theorem spells_insert_iff (ht : t.WellFormed) (htext : Utf8.isValid text) :
    (t.insert text).1.Spells w ↔ t.SpellsWith text w := by
  constructor
  · intro hw
    have hstart : (Insertion.mk t 0 text).WellFormed := ⟨ht, ht.size_pos, htext⟩
    obtain ⟨n, -, hend⟩ := hstart.exists_iterate_turn_eq
    refine hstart.spellsWith_iterate_turn (n := n) (.nil 0) ?_
    rw [hend]
    exact hw
  · obtain ⟨hwf, hext, hwalk⟩ := inserted_insertBelow ht ht.size_pos htext
    have hold : ∀ a, t.Spells a → (t.insert text).1.Spells a :=
      fun a ⟨j, hj⟩ => ⟨j, hext.walk hj⟩
    intro h
    rcases h with hw | rfl | ⟨a, ha, rfl⟩
    · exact hold w hw
    · exact ⟨_, hwalk⟩
    · exact hwf.spells_shared ⟨_, hwalk⟩ (hold a ha)

/-! ## The trie of some entries -/

theorem spells_root_iff : root.Spells w ↔ w = [] := by
  constructor
  · intro h
    obtain ⟨j, hj⟩ := h
    obtain rfl : j = 0 := Nat.lt_one_iff.1 (hj.lt_size wellFormed_root wellFormed_root.size_pos)
    exact wellFormed_root.text_unique hj (.nil 0)
  · rintro rfl
    exact ⟨0, .nil 0⟩

theorem spells_add_iff (ht : t.WellFormed) {e : IndexEntry} (he : Utf8.isValid e.text) :
    (t.add e).Spells w ↔ t.SpellsWith e.text w := by
  rw [← spells_insert_iff ht he]
  obtain ⟨hwf, -, hwalk⟩ := inserted_insertBelow ht ht.size_pos he
  exact exists_congr fun j => walk_congr (label_edges_modify (hwalk.lt_size hwf hwf.size_pos))

/-- The trie of some entries spells the empty text, the texts of the entries, and what two of them
share. -/
theorem spells_ofEntries_iff {entries : List IndexEntry}
    (h : ∀ e ∈ entries, Utf8.isValid e.text) :
    (ofEntries entries).Spells w ↔ w ∈ Utf8.branchTexts (entries.map (·.text)).toFinset := by
  induction entries using List.reverseRecOn generalizing w with
  | nil => simp [ofEntries, spells_root_iff, Utf8.mem_branchTexts_iff]
  | append_singleton entries e ih =>
    obtain ⟨hentries, he⟩ := List.forall_mem_append.1 h
    have hvalid : ∀ a ∈ (entries.map (·.text)).toFinset, Utf8.isValid a := by
      simpa using hentries
    have hinsert : ((entries ++ [e]).map (·.text)).toFinset =
        Insert.insert e.text (entries.map (·.text)).toFinset := by
      rw [List.map_append, List.toFinset_append, Finset.union_comm, Finset.insert_eq]
      rfl
    have he := he e List.mem_cons_self
    rw [ofEntries_concat, spells_add_iff (holds_ofEntries hentries).wellFormed he, hinsert,
      Utf8.mem_branchTexts_insert_iff hvalid he, SpellsWith]
    simp only [ih hentries]

/-! ## The number of nodes -/

/-- Each text that a trie spells has one node, and each node spells one text. -/
theorem WellFormed.size_eq_card (ht : t.WellFormed) {spelled : Finset Bytes}
    (h : ∀ w, t.Spells w ↔ w ∈ spelled) : t.nodes.size = spelled.card := by
  have htext : ∀ j ∈ Finset.range t.nodes.size, ∃ w, t.Walk 0 w j := fun j hj =>
    ht.from_root (Finset.mem_range.1 hj)
  choose text htext using htext
  rw [← Finset.card_range t.nodes.size]
  refine Finset.card_bij text ?_ ?_ ?_
  · exact fun j hj => (h _).1 ⟨j, htext j hj⟩
  · intro j hj k hk he
    exact ht.node_unique (htext j hj) (he ▸ htext k hk)
  · intro w hw
    obtain ⟨j, hj⟩ := (h w).2 hw
    have hmem := Finset.mem_range.2 (hj.lt_size ht ht.size_pos)
    exact ⟨j, hmem, ht.text_unique (htext j hmem) hj⟩

end RouteTable.PrefixTrie
