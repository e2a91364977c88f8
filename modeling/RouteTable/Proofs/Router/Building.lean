import RouteTable.Proofs.Index.Agreement
import RouteTable.Proofs.Index.Turns
import RouteTable.Proofs.Router.Draft

/-!
# Building the trie of a router

A trie takes two things for granted when it is built: that an insertion reads something of the text
along each edge, and that no literal pattern ends yet where one is added. The routes of a draft make
sure of both, in whatever order they are ranked.

* `IndexEntry.DistinctLiterals.text_ne`: the text of a literal entry is not that of one before it
* `Router.turns_of_addAll`: what holds whenever the trie of a router is built
-/

namespace RouteTable

theorem IndexEntry.DistinctLiterals.text_ne {before after : List IndexEntry} {e : IndexEntry}
    (h : DistinctLiterals (before ++ e :: after)) (hl : e.isLiteral) :
    ∀ e' ∈ before, e'.isLiteral → e'.text ≠ e.text :=
  fun e' he' hl' => (List.pairwise_append.1 h).2.2 e' he' e List.mem_cons_self hl' hl

namespace Router

open PrefixTrie

variable {α : Type}

/-- Whichever way the routes of a draft are ranked, and whichever entry of the ranking is added to
the trie of those before it: the label of each edge that the insertion follows shares a whole
sequence with what is left of the text, so that each turn makes the text shorter. The insertion ends
after at most as many turns as the text has bytes, and if the entry is literal, no literal pattern
ends yet at the node that is reached. -/
theorem turns_of_addAll (config : IndexConfig) (calls : List (PatternInput × α))
    {ranking : List (Route α)}
    (hranking : ranking.Perm (({ config } : Draft α).addAll calls).routes)
    {before after : List IndexEntry} {e : IndexEntry}
    (hentries : IndexEntry.ofRanking (ranking.map (·.pattern)) = before ++ e :: after) :
    let t := PrefixTrie.ofEntries before
    let start : Insertion := ⟨t, 0, e.text⟩
    (∀ n, let s := Insertion.turn^[n] start
      s.rest ≠ [] → s.turn.rest.length < s.rest.length ∧
        ∀ child, (s.trie.node s.node).child? (Utf8.leadKey s.rest) = some child →
          ∃ q, Utf8.Sequence q ∧ q <+: (s.trie.node child).label ∧ q <+: s.rest ∧
            q.length ≤ s.trie.sharedLength child s.rest) ∧
    (∃ n ≤ e.text.length, Insertion.turn^[n] start =
      ⟨(t.insert e.text).1, (t.insert e.text).2, []⟩) ∧
    (e.isLiteral → ((t.insert e.text).1.node (t.insert e.text).2).exact = none) := by
  intro t start
  have hwf := Draft.wellFormed_addAll (Draft.wellFormed_empty config) calls
  have hacc : ∀ p ∈ ranking.map (·.pattern), p.Accepted := by
    intro p hp
    obtain ⟨x, hx, rfl⟩ := List.mem_map.1 hp
    exact hwf.accepted x (hranking.subset hx)
  have hdist := IndexEntry.distinctLiterals_ofRanking
    (List.pairwise_map.2 (hwf.distinct_literals_of_perm hranking))
  have hvalid := fun e' => IndexEntry.isValid_of_mem_ofRanking (e := e') hacc
  rw [hentries] at hdist hvalid
  have hbefore : ∀ e' ∈ before, Utf8.isValid e'.text :=
    fun e' he' => hvalid e' (List.mem_append_left _ he')
  have he : Utf8.isValid e.text := hvalid e (List.mem_append_right _ List.mem_cons_self)
  have ht := (holds_ofEntries hbefore).wellFormed
  have hstart : start.WellFormed := ⟨ht, ht.size_pos, he⟩
  refine ⟨?_, hstart.exists_iterate_turn_eq, fun hl => ?_⟩
  · intro n s hne
    have hs : s.WellFormed := hstart.iterate_turn n
    exact ⟨hs.length_rest_turn_lt hne, fun child =>
      exists_shared_sequence hs.trie hne hs.isValid_rest⟩
  · exact exact_insert_eq_none hbefore he (hdist.text_ne hl)

/-- A literal route gets to the node of one with variables. The first turn reads no part of the
sequence that begins as that of another route does. -/
theorem turns_of_addAll_shared :
    let d := ({} : Draft Nat).addAll [(.source (.ofString "/ü"), 0),
      (.source (.ofString "/ö"), 1), (.source (.ofString "/ü{x}"), 2)]
    let before : List IndexEntry := [⟨0, .ofString "/ü", false⟩, ⟨1, .ofString "/ö", true⟩]
    let e : IndexEntry := ⟨2, .ofString "/ü", true⟩
    let t := PrefixTrie.ofEntries before
    IndexEntry.ofRanking (d.routes.reverse.map (·.pattern)) = before ++ [e] ∧
      (Insertion.turn ⟨t, 0, e.text⟩).rest = .ofString "ü" ∧
      (∃ n ≤ 3, Insertion.turn^[n] ⟨t, 0, e.text⟩ =
        ⟨(t.insert e.text).1, (t.insert e.text).2, []⟩) ∧
      ((t.insert e.text).1.node (t.insert e.text).2).positions = [0] ∧
      ((t.insert e.text).1.node (t.insert e.text).2).exact = none := by
  intro d before e t
  have hentries : IndexEntry.ofRanking (d.routes.reverse.map (·.pattern)) = before ++ [e] := by
    decide +kernel
  obtain ⟨-, hend, hexact⟩ := turns_of_addAll {} _ (List.reverse_perm d.routes) hentries
  exact ⟨hentries, by decide +kernel, hend, by decide +kernel, hexact rfl⟩

end Router

end RouteTable
