import RouteTable.Proofs.Index.Insertion

/-!
# The turns of an insertion

An insertion follows one edge in each turn, until no edge has the key of what is left of the text.
Here the turns are told one by one, and a turn does not look whether the text gets shorter.

* `WellFormed.turn_spec`: what a turn keeps, and where it leads
* `WellFormed.length_rest_turn_lt`: a turn makes the text shorter
* `WellFormed.exists_iterate_turn_eq`: the turns end, with the trie and the node of `insertBelow`
* `inserted_insertBelow`: an insertion keeps the trie well-formed, extends it, and finds the node
  that spells the text
-/

namespace RouteTable.PrefixTrie

namespace Insertion

structure WellFormed (s : Insertion) : Prop where
  trie : s.trie.WellFormed
  node_lt : s.node < s.trie.nodes.size
  isValid_rest : Utf8.isValid s.rest

/-- An insertion gets from `s` to `s'`: the trie is extended, and on the way from one node to the
other, labels spell what is read of the text. -/
structure Leads (s s' : Insertion) : Prop where
  extension : s.trie.Extends s'.trie
  walk : ∃ w, s'.trie.Walk s.node w s'.node ∧ w ++ s'.rest = s.rest

variable {s s' s'' : Insertion} {child : Nat}

namespace Leads

theorem refl (s : Insertion) : s.Leads s :=
  ⟨.refl _, [], .nil _, List.nil_append _⟩

theorem trans (h : s.Leads s') (h' : s'.Leads s'') : s.Leads s'' := by
  obtain ⟨w, hw, hrest⟩ := h.walk
  obtain ⟨w', hw', hrest'⟩ := h'.walk
  refine ⟨h.extension.trans h'.extension, w ++ w', (h'.extension.walk hw).append hw', ?_⟩
  rw [List.append_assoc, hrest', hrest]

end Leads

/-! ## One turn -/

theorem turn_of_rest_eq_nil (h : s.rest = []) : s.turn = s := if_pos h

theorem turn_of_none (hne : s.rest ≠ [])
    (hc : (s.trie.node s.node).child? (Utf8.leadKey s.rest) = none) :
    s.turn = ⟨(s.trie.addLeaf s.node s.rest).1, (s.trie.addLeaf s.node s.rest).2, []⟩ := by
  rw [turn, if_neg hne, hc]

theorem turn_of_some (hne : s.rest ≠ [])
    (hc : (s.trie.node s.node).child? (Utf8.leadKey s.rest) = some child) :
    s.turn =
      if s.trie.sharedLength child s.rest < (s.trie.node child).label.length then
        ⟨(s.trie.splitEdge s.node child (s.trie.sharedLength child s.rest)).1,
          (s.trie.splitEdge s.node child (s.trie.sharedLength child s.rest)).2,
          s.rest.drop (s.trie.sharedLength child s.rest)⟩
      else ⟨s.trie, child, s.rest.drop (s.trie.sharedLength child s.rest)⟩ := by
  rw [turn, if_neg hne, hc]

theorem rest_turn_of_some (hne : s.rest ≠ [])
    (hc : (s.trie.node s.node).child? (Utf8.leadKey s.rest) = some child) :
    s.turn.rest = s.rest.drop (s.trie.sharedLength child s.rest) := by
  rw [turn_of_some hne hc]
  split <;> rfl

namespace WellFormed

variable (h : s.WellFormed)

include h

/-- A turn keeps the trie well-formed and the rest in UTF-8. What it takes away from the text is
spelled on its way. -/
theorem turn_spec : s.turn.WellFormed ∧ s.Leads s.turn := by
  by_cases hne : s.rest = []
  · rw [turn_of_rest_eq_nil hne]
    exact ⟨h, .refl s⟩
  cases hc : (s.trie.node s.node).child? (Utf8.leadKey s.rest) with
  | none =>
    rw [turn_of_none hne hc]
    refine ⟨⟨wellFormed_addLeaf h.trie h.node_lt hne h.isValid_rest
        (h.trie.key_ne_of_child? hc), ?_, rfl⟩,
      extends_addLeaf h.trie h.node_lt s.rest, s.rest, ?_, List.append_nil _⟩
    · rw [size_addLeaf]
      exact Nat.lt_succ_self _
    · exact .single ((edge_addLeaf h.trie h.node_lt).2 (Or.inr ⟨rfl, rfl, rfl⟩))
  | some child =>
    obtain ⟨v, hedge, -⟩ := h.trie.edge_of_child? hc
    have hpos := sharedLength_pos h.trie hne h.isValid_rest hc
    have hleft := Utf8.isBoundary_sharedPrefixLength_left v s.rest
    have hvalid := Utf8.isValid_drop h.isValid_rest
      (Utf8.isBoundary_sharedPrefixLength_right v s.rest)
    have htake := Utf8.take_sharedPrefixLength v s.rest
    rw [turn_of_some hne hc]
    simp only [sharedLength, hedge.1] at hpos ⊢
    split
    · next hlt =>
      refine ⟨⟨wellFormed_splitEdge h.trie hedge hpos hlt hleft, ?_, hvalid⟩,
        extends_splitEdge h.trie hedge _, _, .single (edge_splitEdge_above h.trie hedge _), ?_⟩
      · rw [size_splitEdge]
        exact Nat.lt_succ_self _
      · rw [htake, List.take_append_drop]
    · next hge =>
      -- The text begins with the whole label.
      rw [List.take_of_length_le (Nat.not_lt.1 hge)] at htake
      refine ⟨⟨h.trie, h.trie.child_lt hedge, hvalid⟩, .refl _, v, .single hedge, ?_⟩
      exact (congrArg (· ++ _) htake).trans (List.take_append_drop _ _)

theorem turn : s.turn.WellFormed :=
  h.turn_spec.1

theorem length_rest_turn_lt (hne : s.rest ≠ []) : s.turn.rest.length < s.rest.length := by
  have hpos := List.length_pos_iff.2 hne
  cases hc : (s.trie.node s.node).child? (Utf8.leadKey s.rest) with
  | none =>
    rw [turn_of_none hne hc]
    exact hpos
  | some child =>
    have := sharedLength_pos h.trie hne h.isValid_rest hc
    rw [rest_turn_of_some hne hc, List.length_drop]
    omega

/-- After a turn the insertion comes to the same end as before. -/
theorem insertBelow_turn :
    s.turn.trie.insertBelow s.turn.node s.turn.rest = s.trie.insertBelow s.node s.rest := by
  by_cases hne : s.rest = []
  · rw [turn_of_rest_eq_nil hne]
  rw [insertBelow.eq_def s.trie, if_neg hne]
  cases hc : (s.trie.node s.node).child? (Utf8.leadKey s.rest) with
  | none => rw [turn_of_none hne hc, insertBelow, if_pos rfl]
  | some child =>
    have hpos := sharedLength_pos h.trie hne h.isValid_rest hc
    rw [turn_of_some hne hc]
    dsimp only
    rw [if_neg (Nat.ne_of_gt hpos)]
    split <;> rfl

/-! ## All turns -/

theorem iterate_turn (n : Nat) : (Insertion.turn^[n] s).WellFormed := by
  induction n generalizing s with
  | zero => exact h
  | succ n ih => exact ih h.turn

theorem leads_iterate_turn (n : Nat) : s.Leads (Insertion.turn^[n] s) := by
  induction n generalizing s with
  | zero => exact .refl s
  | succ n ih => exact h.turn_spec.2.trans (ih h.turn)

/-- The turns come to an end, and to that of the insertion. -/
theorem exists_iterate_turn_eq : ∃ n ≤ s.rest.length, Insertion.turn^[n] s =
    ⟨(s.trie.insertBelow s.node s.rest).1, (s.trie.insertBelow s.node s.rest).2, []⟩ := by
  induction hlen : s.rest.length using Nat.strong_induction_on generalizing s with
  | _ len ih =>
    by_cases hne : s.rest = []
    · refine ⟨0, Nat.zero_le _, ?_⟩
      rw [hne, insertBelow, if_pos rfl, ← hne]
      rfl
    · have hlt := h.length_rest_turn_lt hne
      obtain ⟨n, hn, he⟩ := ih _ (hlen ▸ hlt) h.turn rfl
      refine ⟨n + 1, by omega, ?_⟩
      rw [Function.iterate_succ_apply, he, h.insertBelow_turn]

end WellFormed

end Insertion

variable {t : PrefixTrie} {i : Nat}

/-! ## Insertion below a node -/

/-- What comes of an insertion below node `i`: a well-formed extension, and the node where a walk
from `i` spells the text. -/
structure Inserted (t : PrefixTrie) (i : Nat) (text : Bytes) (r : PrefixTrie × Nat) : Prop where
  wellFormed : r.1.WellFormed
  extension : t.Extends r.1
  walk : r.1.Walk i text r.2

theorem inserted_insertBelow (ht : t.WellFormed) (hi : i < t.nodes.size) {text : Bytes}
    (htext : Utf8.isValid text) : t.Inserted i text (t.insertBelow i text) := by
  have hstart : (Insertion.mk t i text).WellFormed := ⟨ht, hi, htext⟩
  obtain ⟨n, -, hend⟩ := hstart.exists_iterate_turn_eq
  have hwf := (hstart.iterate_turn n).trie
  obtain ⟨hext, w, hwalk, hw⟩ := hstart.leads_iterate_turn n
  rw [hend] at hwf hext hwalk hw
  obtain rfl : w = text := (List.append_nil w).symm.trans hw
  exact ⟨hwf, hext, hwalk⟩

end RouteTable.PrefixTrie
