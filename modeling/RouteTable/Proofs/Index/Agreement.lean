import RouteTable.Index.Choice
import RouteTable.Proofs.Index.Collection
import RouteTable.Proofs.Pattern.Accepted

/-!
# The list and the trie agree

* `PrefixList.answers_collect`: the list answers for its entries
* `IndexEntry.exists_mem_ofRanking_iff`: the entries of a ranking are its patterns
* `Index.answers_collect`: every index answers for the entries of its ranking
* `Index.collect_flat_eq_trie`: both kinds of index give the same candidates, which are those of the
  path
-/

namespace RouteTable

/-! ## The list -/

namespace PrefixList

variable {entries : List IndexEntry}

theorem literals_ofEntries_perm (entries : List IndexEntry) :
    (ofEntries entries).literals.Perm (entries.filter (·.isLiteral)) :=
  List.mergeSort_perm _ _

theorem pairwise_literals_ofEntries (h : IndexEntry.DistinctLiterals entries) :
    (ofEntries entries).literals.Pairwise (·.text < ·.text) := by
  have hsorted : (ofEntries entries).literals.Pairwise fun a b => decide (a.text ≤ b.text) := by
    refine List.pairwise_mergeSort ?_ ?_ _
    · intro a b c hab hbc
      exact decide_eq_true (Std.le_trans (of_decide_eq_true hab) (of_decide_eq_true hbc))
    · intro a b
      rw [Bool.or_eq_true, decide_eq_true_iff, decide_eq_true_iff]
      exact Std.le_total
  have hne : (ofEntries entries).literals.Pairwise (·.text ≠ ·.text) := by
    refine ((literals_ofEntries_perm entries).pairwise_iff fun hab => hab.symm).2 ?_
    refine List.pairwise_filter.2 (h.imp ?_)
    intro a b hab ha hb
    exact hab ha hb
  apply (hsorted.and hne).imp
  intro a b hab
  exact Std.lt_of_le_of_ne (of_decide_eq_true hab.1) hab.2

theorem answers_collect (h : IndexEntry.DistinctLiterals entries) (path : Bytes) (s : PositionSet) :
    ((ofEntries entries).collect path s).Answers entries path s where
  exact_iff pos := by
    rw [collect, Option.map_eq_some_iff]
    simp only [sortedFind?_eq_some_iff (pairwise_literals_ofEntries h),
      (literals_ofEntries_perm entries).mem_iff, List.mem_filter, and_assoc]
  positions_eq := by
    refine ⟨((entries.filter (!·.isLiteral)).filter (·.text.isPrefixOf path)).map (·.position),
      ?_, ?_⟩
    · rw [List.foldl_map]
      rfl
    · intro pos
      simp only [List.mem_map, List.mem_filter, Bool.not_eq_true',
        List.isPrefixOf_iff_prefix, and_assoc]

end PrefixList

/-! ## The entries of a ranking -/

namespace IndexEntry

variable {ranking : List Pattern}

theorem mem_ofRanking_iff {e : IndexEntry} : e ∈ ofRanking ranking ↔
    ∃ i p, ranking[i]? = some p ∧ e = ⟨.ofNat i, p.literalPrefix, p.isLiteral⟩ := by
  simp only [ofRanking, List.mem_map, List.mem_zipIdx_iff_getElem?, Prod.exists]
  constructor
  · intro h'
    obtain ⟨p, i, h, rfl⟩ := h'
    exact ⟨i, p, h, rfl⟩
  · intro h'
    obtain ⟨i, p, h, rfl⟩ := h'
    exact ⟨p, i, h, rfl⟩

theorem map_text_ofRanking (ranking : List Pattern) :
    (ofRanking ranking).map (·.text) = ranking.map (·.literalPrefix) := by
  rw [ofRanking, List.map_map]
  conv_rhs => rw [← List.zipIdx_map_fst 0 ranking, List.map_map]
  rfl

theorem exists_mem_ofRanking_iff (hlen : ranking.length ≤ 2 ^ 32) {isLiteral : Bool}
    {q : Bytes → Prop} (pos : UInt32) :
    (∃ e ∈ ofRanking ranking, e.isLiteral = isLiteral ∧ q e.text ∧ e.position = pos) ↔
      ∃ p, ranking[pos.toNat]? = some p ∧ p.isLiteral = isLiteral ∧ q p.literalPrefix := by
  constructor
  · intro h
    obtain ⟨e, he, hl, hq, rfl⟩ := h
    obtain ⟨i, p, hp, rfl⟩ := mem_ofRanking_iff.1 he
    have hi : i < ranking.length := (List.getElem?_eq_some_iff.1 hp).1
    refine ⟨p, ?_, hl, hq⟩
    rwa [UInt32.toNat_ofNat_of_lt' (Nat.lt_of_lt_of_le hi hlen)]
  · intro h
    obtain ⟨p, hp, hl, hq⟩ := h
    exact ⟨_, mem_ofRanking_iff.2 ⟨pos.toNat, p, hp, rfl⟩, hl, hq, UInt32.ofNat_toNat⟩

theorem distinctLiterals_ofRanking
    (h : ranking.Pairwise fun p q => p.isLiteral → q.isLiteral →
      p.literalPrefix ≠ q.literalPrefix) :
    DistinctLiterals (ofRanking ranking) := by
  apply List.pairwise_map.2
  rw [← List.zipIdx_map_fst 0 ranking, List.pairwise_map] at h
  exact h

theorem isValid_of_mem_ofRanking (h : ∀ p ∈ ranking, p.Accepted) {e : IndexEntry}
    (he : e ∈ ofRanking ranking) : Utf8.isValid e.text := by
  obtain ⟨i, p, hp, rfl⟩ := mem_ofRanking_iff.1 he
  exact (h p (List.mem_of_getElem? hp)).isValid_literalPrefix

end IndexEntry

/-! ## Indices -/

namespace Index

variable {ranking : List Pattern}

theorem answers_collect (hacc : ∀ p ∈ ranking, p.Accepted)
    (hdist : ranking.Pairwise fun p q => p.isLiteral → q.isLiteral →
      p.literalPrefix ≠ q.literalPrefix)
    (config : IndexConfig) (path : Bytes) (s : PositionSet) :
    ((build config ranking).collect path s).Answers (IndexEntry.ofRanking ranking) path s := by
  have hentries := IndexEntry.distinctLiterals_ofRanking hdist
  simp only [build, collect]
  split
  · next l h =>
    split at h
    · cases h
      exact PrefixList.answers_collect hentries path s
    · exact nomatch h
  · next t h =>
    split at h
    · exact nomatch h
    · cases h
      exact PrefixTrie.answers_collect
        (PrefixTrie.holds_ofEntries fun e => IndexEntry.isValid_of_mem_ofRanking hacc)
          hentries path s

end Index

/-! ## Answers for rankings -/

namespace Candidates.Answers

variable {ranking : List Pattern} {c : Candidates} {path : Bytes}

theorem exact_ofRanking_iff {s : PositionSet} (h : c.Answers (IndexEntry.ofRanking ranking) path s)
    (hlen : ranking.length < 2 ^ 31) (pos : UInt32) : c.exact = some pos ↔
      ∃ p, ranking[pos.toNat]? = some p ∧ p.isLiteral ∧ p.literalPrefix = path :=
  (h.exact_iff pos).trans (IndexEntry.exists_mem_ofRanking_iff (q := (· = path)) (by omega) pos)

section Fresh

variable (h : c.Answers (IndexEntry.ofRanking ranking) path (.empty (.ofNat ranking.length)))
variable (hlen : ranking.length < 2 ^ 31)

include h hlen

theorem wellFormed_positions :
    c.positions.WellFormed ∧ c.positions.capacity.toNat = ranking.length ∧
    ∀ n, c.positions.bit n ↔ ∃ p, ranking[n]? = some p ∧ p.isLiteral = false ∧
      p.literalPrefix <+: path := by
  have hcap : (UInt32.ofNat ranking.length).toNat = ranking.length :=
    UInt32.toNat_ofNat_of_lt' (by show _ < 2 ^ 32; omega)
  have hempty : (PositionSet.empty (.ofNat ranking.length)).WellFormed :=
    PositionSet.wellFormed_empty (by rw [hcap]; omega)
  obtain ⟨l, hl, hmem⟩ := h.positions_eq
  have hmem' : ∀ pos, pos ∈ l ↔
      ∃ p, ranking[pos.toNat]? = some p ∧ p.isLiteral = false ∧ p.literalPrefix <+: path := by
    intro pos
    exact (hmem pos).trans
      (IndexEntry.exists_mem_ofRanking_iff (q := (· <+: path)) (by omega) pos)
  have hlt : ∀ pos ∈ l, pos < (PositionSet.empty (.ofNat ranking.length)).capacity := by
    intro pos hpos
    obtain ⟨p, hp, -⟩ := (hmem' pos).1 hpos
    show pos < UInt32.ofNat ranking.length
    rw [UInt32.lt_iff_toNat_lt, hcap]
    exact (List.getElem?_eq_some_iff.1 hp).1
  rw [hl]
  refine ⟨PositionSet.wellFormed_foldl_insert hempty hlt, ?_, fun n => ?_⟩
  · rw [PositionSet.capacity_foldl_insert]
    exact hcap
  · rw [PositionSet.bit_foldl_insert hempty hlt, PositionSet.bit_empty, Bool.false_or,
      List.contains_iff_mem, List.mem_map]
    constructor
    · intro h
      obtain ⟨pos, hpos, rfl⟩ := h
      exact (hmem' pos).1 hpos
    · intro h
      obtain ⟨p, hp, hp'⟩ := h
      have hn : n < ranking.length := (List.getElem?_eq_some_iff.1 hp).1
      have hpos : (UInt32.ofNat n).toNat = n :=
        UInt32.toNat_ofNat_of_lt' (by show _ < 2 ^ 32; omega)
      exact ⟨.ofNat n, (hmem' _).2 ⟨p, by rwa [hpos], hp'⟩, hpos⟩

theorem contains_iff (pos : UInt32) : c.positions.contains pos ↔
    ∃ p, ranking[pos.toNat]? = some p ∧ p.isLiteral = false ∧ p.literalPrefix <+: path := by
  obtain ⟨hwf, -, hbit⟩ := h.wellFormed_positions hlen
  rw [PositionSet.contains_eq hwf]
  exact hbit pos.toNat

end Fresh

end Candidates.Answers

/-! ## Both kinds -/

/-- The list and the trie of a ranking give the same candidates for every path: the positions of the
patterns with variables whose leading text the path begins with, and the position of the literal
pattern that is the path. -/
theorem Index.collect_flat_eq_trie {ranking : List Pattern} (hacc : ∀ p ∈ ranking, p.Accepted)
    (hdist : ranking.Pairwise fun p q => p.isLiteral → q.isLiteral →
      p.literalPrefix ≠ q.literalPrefix)
    (hlen : ranking.length < 2 ^ 31) (flatLimit : UInt32) (path : Bytes) :
    let flat := build ⟨.flat, flatLimit⟩ ranking
    let trie := build ⟨.trie, flatLimit⟩ ranking
    let c := trie.collect path (.empty trie.count)
    flat.collect path (.empty flat.count) = c ∧
      (∀ pos, c.positions.contains pos ↔
        ∃ p, ranking[pos.toNat]? = some p ∧ p.isLiteral = false ∧ p.literalPrefix <+: path) ∧
      ∀ pos, c.exact = some pos ↔
        ∃ p, ranking[pos.toNat]? = some p ∧ p.isLiteral ∧ p.literalPrefix = path := by
  intro flat trie c
  have hflat := answers_collect hacc hdist ⟨.flat, flatLimit⟩ path (.empty flat.count)
  have htrie := answers_collect hacc hdist ⟨.trie, flatLimit⟩ path (.empty trie.count)
  exact ⟨hflat.unique htrie, htrie.contains_iff hlen, htrie.exact_ofRanking_iff hlen⟩

/-- Four patterns with nested leading texts, of which one is the path, another one begins it in the
middle of an edge, and a third one shares only part of a sequence with it. -/
theorem Index.collect_flat_eq_trie_nested :
    let sources := ["/ü{x}", "/üb", "/{y}", "/ö{z}"].map Bytes.ofString
    let ranking := sources.filterMap fun s => (Pattern.parse s).toOption
    let c := (build ⟨.trie, 0⟩ ranking).collect (.ofString "/üb") (.empty 4)
    ranking.length = 4 ∧
      (build ⟨.flat, 0⟩ ranking).collect (.ofString "/üb") (.empty 4) = c ∧
      c.exact = some 1 ∧ c.positions.toList = [0, 2] := by
  intro sources ranking c
  have hlen : ranking.length = 4 := by decide +kernel
  refine ⟨hlen, ?_, by decide +kernel, by decide +kernel⟩
  have hacc : ∀ p ∈ ranking, p.Accepted :=
    fun p hp => Pattern.accepted_of_mem_filterMap_parse hp
  have h := (collect_flat_eq_trie hacc (by decide +kernel) (by omega) 0 (.ofString "/üb")).1
  simp only [build, hlen] at h
  exact h

end RouteTable
