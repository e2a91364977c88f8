import Mathlib
import RouteTable.Index.Basic
import RouteTable.Proofs.Index.PositionSet

/-!
# What an index has to answer

* `sortedFind?_eq_some_iff`: lookup by a key in a sorted list
* `Candidates.Answers`: the candidates that a path has among the entries
* `Answers.unique`: entries and path leave no choice for the answer
-/

namespace RouteTable

/-! ## Lookup in sorted lists -/

section Lookup

variable {α κ : Type} [LT κ] [DecidableLT κ] [DecidableEq κ] {key : α → κ} {k : κ}
  {l : List α}

theorem sortedFind?_cons (a : α) :
    sortedFind? key k (a :: l) =
      if key a < k then sortedFind? key k l else if key a = k then some a else none := by
  rw [sortedFind?, List.dropWhile_cons]
  by_cases h : key a < k
  · rw [if_pos (by simpa using h), if_pos h]
    rfl
  · rw [if_neg (by simpa using h), if_neg h]

variable [Std.Irrefl (α := κ) (· < ·)]

theorem sortedFind?_eq_some_iff (h : l.Pairwise (key · < key ·)) {a : α} :
    sortedFind? key k l = some a ↔ a ∈ l ∧ key a = k := by
  induction h with
  | nil => simp [sortedFind?]
  | @cons b l hlt _ ih =>
    rw [sortedFind?_cons, List.mem_cons]
    by_cases hb : key b < k
    · rw [if_pos hb, ih]
      constructor
      · exact fun ⟨hm, hk⟩ => ⟨Or.inr hm, hk⟩
      · intro h
        obtain ⟨rfl | hm, hk⟩ := h
        · exact absurd (hk ▸ hb) (Std.Irrefl.irrefl k)
        · exact ⟨hm, hk⟩
    · rw [if_neg hb]
      constructor
      · intro hs
        split at hs
        · next hk =>
          obtain rfl := Option.some.inj hs
          exact ⟨Or.inl rfl, hk⟩
        · exact absurd hs (by simp)
      · intro h
        obtain ⟨rfl | hm, hk⟩ := h
        · rw [if_pos hk]
        · exact absurd (hk ▸ hlt a hm) hb

theorem sortedFind?_eq_none_iff (h : l.Pairwise (key · < key ·)) :
    sortedFind? key k l = none ↔ ∀ a ∈ l, key a ≠ k := by
  rw [Option.eq_none_iff_forall_ne_some]
  constructor
  · intro hn a ha hk
    exact hn a ((sortedFind?_eq_some_iff h).2 ⟨ha, hk⟩)
  · intro hn a ha
    obtain ⟨hm, hk⟩ := (sortedFind?_eq_some_iff h).1 ha
    exact hn a hm hk

end Lookup

/-! ## Entries -/

def IndexEntry.DistinctLiterals (entries : List IndexEntry) : Prop :=
  entries.Pairwise fun e e' => e.isLiteral → e'.isLiteral → e.text ≠ e'.text

theorem IndexEntry.DistinctLiterals.eq_of_text_eq {entries : List IndexEntry} {e e' : IndexEntry}
    (h : DistinctLiterals entries) (he : e ∈ entries) (he' : e' ∈ entries) (hl : e.isLiteral)
    (hl' : e'.isLiteral) (ht : e.text = e'.text) : e = e' := by
  by_contra hne
  have : Std.Symm fun e e' : IndexEntry => e.isLiteral → e'.isLiteral → e.text ≠ e'.text :=
    ⟨fun a b hab hb ha => (hab ha hb).symm⟩
  exact h.forall he he' hne hl hl' ht

/-! ## Answers -/

/-- The candidates are those of a path among the given entries, with the positions added to `start`.
-/
structure Candidates.Answers (c : Candidates) (entries : List IndexEntry) (path : Bytes)
    (start : PositionSet) : Prop where
  exact_iff : ∀ pos, c.exact = some pos ↔
    ∃ e ∈ entries, e.isLiteral ∧ e.text = path ∧ e.position = pos
  positions_eq : ∃ l : List UInt32, c.positions = l.foldl PositionSet.insert start ∧
    ∀ pos, pos ∈ l ↔ ∃ e ∈ entries, e.isLiteral = false ∧ e.text <+: path ∧
      e.position = pos

namespace Candidates.Answers

variable {c c' : Candidates} {entries : List IndexEntry} {path : Bytes} {start : PositionSet}

theorem unique (h : c.Answers entries path start) (h' : c'.Answers entries path start) :
    c = c' := by
  obtain ⟨l, hl, hmem⟩ := h.positions_eq
  obtain ⟨l', hl', hmem'⟩ := h'.positions_eq
  have hpos : c.positions = c'.positions := by
    rw [hl, hl']
    exact PositionSet.foldl_insert_congr (fun p => (hmem p).trans (hmem' p).symm) start
  have hex : c.exact = c'.exact := by
    apply Option.ext
    intro p
    exact (h.exact_iff p).trans (h'.exact_iff p).symm
  cases c
  cases c'
  exact Candidates.mk.injEq .. ▸ ⟨hex, hpos⟩

end Candidates.Answers

end RouteTable
