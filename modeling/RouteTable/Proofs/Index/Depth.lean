import RouteTable.Proofs.Index.Agreement
import RouteTable.Proofs.Index.Branching

/-!
# The depth of a trie

The depth is found by a loop with a list of nodes that wait. Here the turns of the loop are told one
by one, together with the nodes that were visited.

* `WellFormed.card_properPrefixes_append`: along an edge, the depth grows by one
* `Visit.WellFormed`, `Visit.Measures`: what a turn keeps of the nodes and of their depths
* `Visit.WellFormed.visited_perm`, `iterate_turn_start`: the loop visits each node once, and then it
  ends
* `Shape`, `WellFormed.shape`: the depth is the greatest number of texts in front of one
* `shape_ofRanking`: texts, number of nodes and depth of the trie of a ranking
-/

namespace RouteTable.PrefixTrie

variable {t : PrefixTrie} {u v w : Bytes} {i j depth n : Nat} {pending : List (Nat × Nat)}
variable {spelled : Finset Bytes}

/-! ## Texts in front of others -/

/-- An edge has one more text in front of its end than in front of its start. -/
theorem WellFormed.properPrefixes_append (ht : t.WellFormed)
    (hs : ∀ w, t.Spells w ↔ w ∈ spelled) (hu : t.Walk 0 u i) (h : t.Edge i v j) :
    Utf8.properPrefixes spelled (u ++ v) = Insert.insert u (Utf8.properPrefixes spelled u) := by
  have hne := ht.label_ne_nil h
  ext x
  simp only [Utf8.properPrefixes, Finset.mem_filter, Finset.mem_insert]
  constructor
  · intro hx
    obtain ⟨hmem, hpre, hxne⟩ := hx
    rcases List.prefix_or_prefix_of_prefix hpre (List.prefix_append u v) with hxu | ⟨y, rfl⟩
    · exact (em (x = u)).imp_right fun hne' => ⟨hmem, hxu, hne'⟩
    -- Between both ends of the edge no text is spelled.
    obtain ⟨k, hk⟩ := (hs _).2 hmem
    rw [List.prefix_append_right_inj] at hpre
    left
    rcases (ht.cancel hu hk).eq_nil_or_child ht (List.prefix_refl y) with
      ⟨rfl, -⟩ | ⟨v', y', _, h', -, hv', -, rfl⟩
    · exact List.append_nil u
    · obtain ⟨rfl, -⟩ := ht.edge_deterministic h h' (List.prefix_refl v)
        ((List.prefix_append v' y').trans hpre)
      have hy : v ++ y' = v := hpre.sublist.antisymm (List.prefix_append v y').sublist
      exact absurd (congrArg (u ++ ·) hy) hxne
  · intro hx
    rcases hx with rfl | ⟨hmem, hpre, hxne⟩
    · refine ⟨(hs _).1 ⟨i, hu⟩, List.prefix_append _ _, fun he => hne ?_⟩
      exact List.self_eq_append_right.1 he
    · refine ⟨hmem, hpre.trans (List.prefix_append u v), fun he => hxne ?_⟩
      exact hpre.sublist.antisymm (he ▸ (List.prefix_append u v).sublist)

theorem WellFormed.card_properPrefixes_append (ht : t.WellFormed)
    (hs : ∀ w, t.Spells w ↔ w ∈ spelled) (hu : t.Walk 0 u i) (h : t.Edge i v j) :
    (Utf8.properPrefixes spelled (u ++ v)).card = (Utf8.properPrefixes spelled u).card + 1 := by
  rw [ht.properPrefixes_append hs hu h, Finset.card_insert_of_notMem]
  simp [Utf8.properPrefixes]

/-! ## The loop -/

namespace Visit

def seen (s : Visit) : List Nat :=
  s.visited ++ s.pending.map (·.1)

variable {s : Visit}

theorem turn_of_nil (h : s.pending = []) : s.turn t = s := by
  rw [turn, h]

theorem turn_of_cons (h : s.pending = (i, depth) :: pending) :
    s.turn t = ⟨max s.deepest depth, t.childrenAt i (depth + 1) ++ pending,
      i :: s.visited⟩ := by
  rw [turn, h]

theorem iterate_turn_of_nil (h : s.pending = []) (n : Nat) : (turn t)^[n] s = s :=
  Function.iterate_fixed (turn_of_nil h) n

theorem deepest_iterate_turn (t : PrefixTrie) (n : Nat) (s : Visit) :
    ((turn t)^[n] s).deepest = max s.deepest (t.deepest n s.pending) := by
  induction n generalizing s with
  | zero => exact (Nat.max_zero _).symm
  | succ n ih =>
    rw [Function.iterate_succ_apply, ih]
    cases h : s.pending with
    | nil =>
      rw [turn_of_nil h, h]
      cases n <;> rfl
    | cons p pending =>
      obtain ⟨i, depth⟩ := p
      rw [turn_of_cons h, deepest]
      exact Nat.max_assoc _ _ _

theorem length_visited_iterate_turn (h : ((turn t)^[n] s).pending ≠ []) :
    ((turn t)^[n] s).visited.length = s.visited.length + n := by
  induction n with
  | zero => rfl
  | succ n ih =>
    rw [Function.iterate_succ_apply'] at h ⊢
    cases hp : ((turn t)^[n] s).pending with
    | nil =>
      rw [turn_of_nil hp] at h
      exact absurd hp h
    | cons p pending =>
      obtain ⟨i, depth⟩ := p
      rw [turn_of_cons hp, List.length_cons, ih (hp ▸ List.cons_ne_nil _ _), Nat.add_assoc]

/-! ## The nodes -/

/-- No node is seen twice, and the nodes that are seen are the root and the children of those that
were visited. -/
structure WellFormed (t : PrefixTrie) (s : Visit) : Prop where
  nodup : s.seen.Nodup
  lt_size : ∀ i ∈ s.seen, i < t.nodes.size
  root_mem : 0 ∈ s.seen
  child_mem_iff : ∀ {i v j}, t.Edge i v j → (j ∈ s.seen ↔ i ∈ s.visited)

theorem seen_turn (h : s.pending = (i, depth) :: pending) :
    (s.turn t).seen.Perm ((t.node i).edges.map (·.child) ++ s.seen) := by
  have hchildren : (t.childrenAt i (depth + 1)).map (·.1) =
      ((t.node i).edges.map (·.child)).reverse := by
    rw [childrenAt, List.map_reverse, List.map_map]
    rfl
  rw [turn_of_cons h, seen, seen, h, List.map_append, hchildren, List.map_cons, List.cons_append]
  generalize (t.node i).edges.map (·.child) = children
  generalize pending.map (·.1) = rest
  calc (i :: (s.visited ++ (children.reverse ++ rest))).Perm
        (i :: (children.reverse ++ (s.visited ++ rest))) :=
      (List.perm_append_comm_assoc _ _ _).cons i
    List.Perm _ (i :: (children ++ (s.visited ++ rest))) :=
      ((List.reverse_perm _).append_right _).cons i
    List.Perm _ (children ++ i :: (s.visited ++ rest)) := List.perm_middle.symm
    List.Perm _ (children ++ (s.visited ++ i :: rest)) := List.perm_middle.symm.append_left _

namespace WellFormed

theorem start (ht : t.WellFormed) : WellFormed t start where
  nodup := List.nodup_singleton 0
  lt_size i hi := List.mem_singleton.1 hi ▸ ht.size_pos
  root_mem := List.mem_singleton.2 rfl
  child_mem_iff h := by
    refine iff_of_false (fun hj => ?_) List.not_mem_nil
    exact absurd (List.mem_singleton.1 hj) (Nat.ne_of_gt (ht.child_pos h))

variable (h : s.WellFormed t)

include h

theorem turn (ht : t.WellFormed) : (s.turn t).WellFormed t := by
  cases hp : s.pending with
  | nil => rwa [turn_of_nil hp]
  | cons p pending =>
    obtain ⟨i, depth⟩ := p
    have hperm := seen_turn (t := t) hp
    have hnew : i ∉ s.visited := fun hi => (List.nodup_append'.1 h.nodup).2.2 hi (by simp [hp])
    have hmem : ∀ j, j ∈ (t.node i).edges.map (·.child) ↔ ∃ v, t.Edge i v j := by
      intro j
      simp [Edge]
    refine ⟨hperm.nodup_iff.2 (List.nodup_append'.2 ⟨?_, h.nodup, ?_⟩), fun j hj => ?_, ?_,
      fun {k v j} hedge => ?_⟩
    · -- Edges of one node with the same child have the same key.
      refine List.pairwise_map.2 (List.Pairwise.imp_of_mem ?_ (ht.sorted i))
      intro e e' he he' hlt hchild
      rw [ht.key_eq he, ht.key_eq he', hchild] at hlt
      exact UInt32.lt_irrefl _ hlt
    · intro j hj hj'
      obtain ⟨v, hedge⟩ := (hmem j).1 hj
      exact hnew ((h.child_mem_iff hedge).1 hj')
    · rcases List.mem_append.1 (hperm.mem_iff.1 hj) with hj | hj
      · obtain ⟨v, hedge⟩ := (hmem j).1 hj
        exact ht.child_lt hedge
      · exact h.lt_size j hj
    · exact hperm.mem_iff.2 (List.mem_append_right _ h.root_mem)
    · rw [hperm.mem_iff, List.mem_append, h.child_mem_iff hedge, hmem, turn_of_cons hp,
        List.mem_cons]
      apply or_congr_left
      constructor
      · intro hedge'
        obtain ⟨w, hw⟩ := hedge'
        exact ht.parent_unique hedge hw
      · rintro rfl
        exact ⟨v, hedge⟩

theorem iterate_turn (ht : t.WellFormed) (n : Nat) : ((Visit.turn t)^[n] s).WellFormed t := by
  induction n generalizing s with
  | zero => exact h
  | succ n ih => exact ih (h.turn ht)

theorem length_seen_le : s.seen.length ≤ t.nodes.size := by
  have hsub : s.seen ⊆ List.range t.nodes.size := fun i hi => List.mem_range.2 (h.lt_size i hi)
  have := (List.subperm_of_subset h.nodup hsub).length_le
  rwa [List.length_range] at this

/-- At the end all nodes were visited, each of them once. -/
theorem visited_perm (ht : t.WellFormed) (hp : s.pending = []) :
    s.visited.Perm (List.range t.nodes.size) := by
  have hseen : s.seen = s.visited := by rw [seen, hp, List.map_nil, List.append_nil]
  have hwalk : ∀ {i w j}, t.Walk i w j → i ∈ s.visited → j ∈ s.visited := by
    intro i w j hw
    induction hw with
    | nil => exact id
    | cons first rest ih =>
      intro hi
      exact ih (hseen ▸ (h.child_mem_iff first).2 hi)
  refine (List.perm_ext_iff_of_nodup (hseen ▸ h.nodup) List.nodup_range).2 fun j => ?_
  rw [List.mem_range]
  refine ⟨fun hj => h.lt_size j (hseen ▸ hj), fun hj => ?_⟩
  obtain ⟨w, hw⟩ := ht.from_root hj
  exact hwalk hw (hseen ▸ h.root_mem)

end WellFormed

/-- The loop ends after one turn for each node. -/
theorem pending_iterate_turn (ht : t.WellFormed) :
    ((turn t)^[t.nodes.size] start).pending = [] := by
  by_contra hne
  have hlen := length_visited_iterate_turn hne
  have hle := ((WellFormed.start ht).iterate_turn ht t.nodes.size).length_seen_le
  have hpos := List.length_pos_iff.2 hne
  rw [seen, List.length_append, hlen, List.length_map] at hle
  omega

/-! ## The depths -/

/-- The nodes that wait have their depths, and the greatest depth of those that were visited is
known. -/
structure Measures (t : PrefixTrie) (spelled : Finset Bytes) (s : Visit) : Prop where
  depth_eq : ∀ p ∈ s.pending,
    ∃ w, t.Walk 0 w p.1 ∧ p.2 = (Utf8.properPrefixes spelled w).card
  deepest_le : s.deepest ≤ spelled.sup fun w => (Utf8.properPrefixes spelled w).card
  le_deepest : ∀ i ∈ s.visited,
    ∀ w, t.Walk 0 w i → (Utf8.properPrefixes spelled w).card ≤ s.deepest

namespace Measures

theorem start : Measures t spelled start where
  depth_eq p hp := by
    refine ⟨[], List.mem_singleton.1 hp ▸ .nil 0, ?_⟩
    rw [List.mem_singleton.1 hp, Utf8.properPrefixes, Finset.filter_false_of_mem]
    · rfl
    · exact fun v _ hv => hv.2 (List.prefix_nil.1 hv.1)
  deepest_le := Nat.zero_le _
  le_deepest i hi := absurd hi List.not_mem_nil

theorem turn (ht : t.WellFormed) (hs : ∀ w, t.Spells w ↔ w ∈ spelled)
    (h : s.Measures t spelled) : (s.turn t).Measures t spelled := by
  cases hp : s.pending with
  | nil => rwa [turn_of_nil hp]
  | cons p pending =>
    obtain ⟨i, depth⟩ := p
    have hdepth := hp ▸ h.depth_eq
    obtain ⟨⟨w, hw, hcard⟩, hpending⟩ := List.forall_mem_cons.1 hdepth
    dsimp only at hw hcard
    rw [turn_of_cons hp]
    refine ⟨fun p hp => ?_, Nat.max_le.2 ⟨h.deepest_le, ?_⟩, fun j hj v hv => ?_⟩
    · rcases List.mem_append.1 hp with hp | hp
      · obtain ⟨e, he, rfl⟩ := List.mem_map.1 (List.mem_reverse.1 hp)
        have hedge := edge_of_mem he
        refine ⟨_, hw.append (.single hedge), ?_⟩
        rw [ht.card_properPrefixes_append hs hw hedge, hcard]
      · exact hpending p hp
    · rw [hcard]
      exact Finset.le_sup (f := fun w => (Utf8.properPrefixes spelled w).card)
        ((hs w).1 ⟨i, hw⟩)
    · rcases List.mem_cons.1 hj with rfl | hj
      · rw [ht.text_unique hv hw, ← hcard]
        exact Nat.le_max_right _ _
      · exact (h.le_deepest j hj v hv).trans (Nat.le_max_left _ _)

theorem iterate_turn (ht : t.WellFormed) (hs : ∀ w, t.Spells w ↔ w ∈ spelled)
    (h : s.Measures t spelled) (n : Nat) : ((Visit.turn t)^[n] s).Measures t spelled := by
  induction n generalizing s with
  | zero => exact h
  | succ n ih => exact ih (h.turn ht hs)

end Measures

end Visit

/-! ## The shape of a trie -/

/-- After one turn for each node the loop has found the depth, and it stays as it is. -/
theorem iterate_turn_start (ht : t.WellFormed) (h : t.nodes.size ≤ n) :
    (Visit.turn t)^[n] Visit.start =
      ⟨t.depth, [], ((Visit.turn t)^[t.nodes.size] Visit.start).visited⟩ := by
  have hpending := Visit.pending_iterate_turn ht
  have hdepth : ((Visit.turn t)^[t.nodes.size] Visit.start).deepest = t.depth := by
    rw [Visit.deepest_iterate_turn]
    exact Nat.zero_max _
  obtain ⟨m, rfl⟩ := Nat.exists_eq_add_of_le' h
  rw [Function.iterate_add_apply, Visit.iterate_turn_of_nil hpending, ← hdepth, ← hpending]

/-- The texts that a trie spells, each by one node, and what they tell of its size and its depth.
The loop that finds the depth visits each node once. -/
structure Shape (t : PrefixTrie) (spelled : Finset Bytes) : Prop where
  spells_iff : ∀ w, t.Spells w ↔ w ∈ spelled
  existsUnique_node : ∀ w ∈ spelled, ∃! j, t.Walk 0 w j
  existsUnique_text : ∀ j < t.nodes.size, ∃! w, t.Walk 0 w j
  size_eq : t.nodes.size = spelled.card
  depth_eq : t.depth = spelled.sup fun w => (Utf8.properPrefixes spelled w).card
  visit_eq : ∃ visited, visited.Perm (List.range t.nodes.size) ∧
    ∀ n ≥ t.nodes.size, (Visit.turn t)^[n] Visit.start = ⟨t.depth, [], visited⟩

theorem WellFormed.shape (ht : t.WellFormed) (hs : ∀ w, t.Spells w ↔ w ∈ spelled) :
    t.Shape spelled := by
  have hend := fun n hn => iterate_turn_start (n := n) ht hn
  have hvisited := ((Visit.WellFormed.start ht).iterate_turn ht t.nodes.size).visited_perm ht
    (Visit.pending_iterate_turn ht)
  refine ⟨hs, fun w hw => ?_, fun j hj => ?_, ht.size_eq_card hs, ?_, _, hvisited, hend⟩
  · obtain ⟨j, hj⟩ := (hs w).2 hw
    exact ⟨j, hj, fun k hk => ht.node_unique hk hj⟩
  · obtain ⟨w, hw⟩ := ht.from_root hj
    exact ⟨w, hw, fun v hv => ht.text_unique hv hw⟩
  · obtain ⟨-, hle, hge⟩ := Visit.Measures.start.iterate_turn ht hs t.nodes.size
    rw [hend _ (Nat.le_refl _)] at hle hge
    refine Nat.le_antisymm hle (Finset.sup_le fun w hw => ?_)
    obtain ⟨j, hj⟩ := (hs w).2 hw
    exact hge j (hvisited.mem_iff.2 (List.mem_range.2 (hj.lt_size ht ht.size_pos))) w hj

theorem shape_ofEntries_ofRanking {ranking : List Pattern} (hacc : ∀ p ∈ ranking, p.Accepted) :
    (ofEntries (IndexEntry.ofRanking ranking)).Shape
      (Utf8.branchTexts (ranking.map (·.literalPrefix)).toFinset) := by
  have hvalid : ∀ e ∈ IndexEntry.ofRanking ranking, Utf8.isValid e.text := fun e =>
    IndexEntry.isValid_of_mem_ofRanking hacc
  refine (holds_ofEntries hvalid).wellFormed.shape fun w => ?_
  rw [spells_ofEntries_iff hvalid, IndexEntry.map_text_ofRanking]

/-- The trie of a ranking of patterns spells the empty text, the leading texts of the patterns, and
what two of them share in whole sequences, and it spells nothing else. The order of the patterns
changes neither the number of its nodes nor its depth. -/
theorem shape_ofRanking {ranking : List Pattern} (hacc : ∀ p ∈ ranking, p.Accepted)
    (hlen : ranking.length < 2 ^ 31) :
    let t := ofEntries (IndexEntry.ofRanking ranking)
    let texts := (ranking.map (·.literalPrefix)).toFinset
    let spelled := Utf8.branchTexts texts
    (∀ a ∈ texts, ∀ b ∈ texts, ∃ w ∈ spelled, Utf8.IsShared w a b) ∧
    (∀ w, w ∈ spelled ↔
      w = [] ∨ w ∈ texts ∨ ∃ a ∈ texts, ∃ b ∈ texts, Utf8.IsShared w a b) ∧
    t.Shape spelled ∧ t.nodes.size < 2 ^ 32 ∧
    ∀ ranking' : List Pattern, ranking'.Perm ranking →
      (ofEntries (IndexEntry.ofRanking ranking')).nodes.size = t.nodes.size ∧
        (ofEntries (IndexEntry.ofRanking ranking')).depth = t.depth := by
  intro t texts spelled
  have hvalid : ∀ a ∈ texts, Utf8.isValid a := by
    intro a ha
    obtain ⟨p, hp, rfl⟩ := List.mem_map.1 (List.mem_toFinset.1 ha)
    exact (hacc p hp).isValid_literalPrefix
  have hshape := shape_ofEntries_ofRanking hacc
  refine ⟨fun a ha b hb => ?_, fun w => ?_, hshape, ?_, fun ranking' hperm => ?_⟩
  · refine ⟨Utf8.shared a b, ?_, Utf8.isShared_shared (hvalid a ha) (hvalid b hb)⟩
    exact Utf8.mem_branchTexts_iff.2 (Or.inr (Or.inr ⟨a, ha, b, hb, rfl⟩))
  · refine Utf8.mem_branchTexts_iff.trans (or_congr_right (or_congr_right ?_))
    refine exists_congr fun a => and_congr_right fun ha => exists_congr fun b => ?_
    exact and_congr_right fun hb => (Utf8.isShared_iff (hvalid a ha) (hvalid b hb)).symm
  · obtain ⟨changes, htexts, hchanges⟩ :=
      exists_applyAll_eq_ofEntries (IndexEntry.ofRanking ranking)
    have hsize : (root.applyAll changes).nodes.size ≤ 1 + 2 * (Change.texts changes).length := by
      refine (grown_applyAll wellFormed_root ?_).2
      rw [htexts, IndexEntry.map_text_ofRanking]
      exact fun a ha => hvalid a (List.mem_toFinset.2 ha)
    rw [hchanges, htexts, IndexEntry.map_text_ofRanking, List.length_map] at hsize
    show (ofEntries (IndexEntry.ofRanking ranking)).nodes.size < 2 ^ 32
    omega
  · have hshape' := shape_ofEntries_ofRanking fun p hp => hacc p (hperm.mem_iff.1 hp)
    rw [List.toFinset_eq_of_perm _ _ (hperm.map (·.literalPrefix))] at hshape'
    exact ⟨hshape'.size_eq.trans hshape.size_eq.symm,
      hshape'.depth_eq.trans hshape.depth_eq.symm⟩

/-- Three patterns of which two part in the middle of a character. -/
theorem shape_ofRanking_cut :
    let sources := ["/ü{x}", "/üb", "/ö{z}"].map Bytes.ofString
    let ranking := sources.filterMap fun s => (Pattern.parse s).toOption
    let t := ofEntries (IndexEntry.ofRanking ranking)
    t.nodes.size = 5 ∧ t.depth = 3 ∧ t.Spells (.ofString "/") ∧
      ¬ t.Spells (Bytes.ofString "/" ++ [0xC3]) ∧
      (ofEntries (IndexEntry.ofRanking ranking.reverse)).nodes.size = 5 ∧
      (ofEntries (IndexEntry.ofRanking ranking.reverse)).depth = 3 := by
  intro sources ranking t
  have hacc : ∀ p ∈ ranking, p.Accepted :=
    fun p hp => Pattern.accepted_of_mem_filterMap_parse hp
  obtain ⟨-, -, hshape, -, hperm⟩ := shape_ofRanking hacc (by decide +kernel)
  obtain ⟨hsize', hdepth'⟩ := hperm _ ranking.reverse_perm
  have hsize : t.nodes.size = 5 := hshape.size_eq.trans (by decide +kernel)
  have hdepth : t.depth = 3 := hshape.depth_eq.trans (by decide +kernel)
  refine ⟨hsize, hdepth, (hshape.spells_iff _).2 (by decide +kernel), ?_,
    hsize'.trans hsize, hdepth'.trans hdepth⟩
  rw [hshape.spells_iff]
  decide +kernel

end RouteTable.PrefixTrie
