import Mathlib
import RouteTable.Router.Draft

/-!
# Rankings

* `StrictWeakOrder`: a comparison that ranks the elements of a list, some of them equal
* `strictWeakOrder_moreSpecific`: the usual comparison of routes ranks all of them
* `pairwise_ranked`, `sublist_ranked`: routes are ranked by the comparison, and equal ones in the
  order in which they were added
* `eq_ranked`: the ranking is the only such order
* `ranked_filter`: some of the routes are ranked as they are among all of them
* `ranked_eq_of_perm`: the order in which routes were added only counts for equal ones
-/

namespace RouteTable

variable {α : Type}

/-- A comparison that ranks the elements of a list. Neither of two equal elements is preferred to
the other. -/
structure StrictWeakOrder (l : List α) (prefers : α → α → Bool) : Prop where
  irrefl : ∀ a ∈ l, prefers a a = false
  trans : ∀ a ∈ l, ∀ b ∈ l, ∀ c ∈ l, prefers a b → prefers b c → prefers a c
  incomparable_trans : ∀ a ∈ l, ∀ b ∈ l, ∀ c ∈ l,
    prefers a b = false → prefers b a = false →
    prefers b c = false → prefers c b = false → prefers a c = false

namespace StrictWeakOrder

variable {l : List α} {prefers : α → α → Bool} (h : StrictWeakOrder l prefers)

include h

theorem asymm {a b : α} (ha : a ∈ l) (hb : b ∈ l) (hab : prefers a b) :
    prefers b a = false := by
  apply Bool.eq_false_iff.2
  intro hba
  have := h.trans a ha b hb a ha hab hba
  rw [h.irrefl a ha] at this
  exact Bool.false_ne_true this

/-- What is not preferred to `b` is not preferred to anything that `b` is not preferred to. -/
theorem not_prefers_trans {a b c : α} (ha : a ∈ l) (hb : b ∈ l) (hc : c ∈ l)
    (hba : prefers b a = false) (hcb : prefers c b = false) : prefers c a = false := by
  apply Bool.eq_false_iff.2
  intro hca
  cases hab : prefers a b with
  | true =>
    have := h.trans c hc a ha b hb hca hab
    rw [hcb] at this
    exact Bool.false_ne_true this
  | false =>
    cases hbc : prefers b c with
    | true =>
      have := h.trans b hb c hc a ha hbc hca
      rw [hba] at this
      exact Bool.false_ne_true this
    | false =>
      have := h.incomparable_trans c hc b hb a ha hcb hbc hba hab
      rw [hca] at this
      exact Bool.false_ne_true this.symm

theorem mono {l' : List α} (hl : l' ⊆ l) : StrictWeakOrder l' prefers where
  irrefl a ha := h.irrefl a (hl ha)
  trans a ha b hb c hc := h.trans a (hl ha) b (hl hb) c (hl hc)
  incomparable_trans a ha b hb c hc := h.incomparable_trans a (hl ha) b (hl hb) c (hl hc)

end StrictWeakOrder

/-! ## Pairs in lists -/

theorem pair_sublist_or {l : List α} {x y : α} (hx : x ∈ l) (hy : y ∈ l) (hne : x ≠ y) :
    [x, y].Sublist l ∨ [y, x].Sublist l := by
  induction l with
  | nil => exact absurd hx List.not_mem_nil
  | cons a l ih =>
    rcases List.mem_cons.1 hx with rfl | hx'
    · have hy' := (List.mem_cons.1 hy).resolve_left hne.symm
      exact Or.inl ((List.singleton_sublist.2 hy').cons_cons _)
    · rcases List.mem_cons.1 hy with rfl | hy'
      · exact Or.inr ((List.singleton_sublist.2 hx').cons_cons _)
      · exact (ih hx' hy').imp (·.cons a) (·.cons a)

theorem not_sublist_swap {l : List α} {x y : α} (h : l.Nodup) (hxy : [x, y].Sublist l) :
    ¬ [y, x].Sublist l := by
  induction l with
  | nil => exact nomatch hxy
  | cons a l ih =>
    intro hyx
    obtain ⟨ha, hl⟩ := List.nodup_cons.1 h
    rcases List.sublist_cons_iff.1 hxy with h₁ | ⟨_, he₁, h₁⟩ <;>
      rcases List.sublist_cons_iff.1 hyx with h₂ | ⟨_, he₂, h₂⟩
    · exact ih hl h₁ h₂
    · obtain ⟨rfl, rfl⟩ := List.cons.inj he₂
      exact ha (h₁.subset (by simp))
    · obtain ⟨rfl, rfl⟩ := List.cons.inj he₁
      exact ha (h₂.subset (by simp))
    · obtain ⟨rfl, rfl⟩ := List.cons.inj he₁
      obtain ⟨rfl, rfl⟩ := List.cons.inj he₂
      exact ha (h₁.subset (by simp))

/-! ## The usual comparison -/

theorem Specificity.moreSpecific_iff (a b : Specificity) : a.moreSpecific b ↔
    a.variableCount < b.variableCount ∨
      a.variableCount = b.variableCount ∧ b.literalCount < a.literalCount := by
  rw [moreSpecific, compare, Ordering.isGT_iff_eq_gt, Ordering.then_eq_gt, Std.compare_eq_gt,
    Std.compare_eq_iff_eq, Std.compare_eq_gt, eq_comm (a := b.variableCount)]

theorem strictWeakOrder_moreSpecific (l : List (Route α)) :
    StrictWeakOrder l Route.moreSpecific := by
  have hiff : ∀ x y : Route α, Route.moreSpecific x y ↔
      x.pattern.specificity.variableCount.toNat < y.pattern.specificity.variableCount.toNat ∨
        x.pattern.specificity.variableCount.toNat = y.pattern.specificity.variableCount.toNat ∧
          y.pattern.specificity.literalCount.toNat < x.pattern.specificity.literalCount.toNat := by
    intro x y
    rw [Route.moreSpecific, Specificity.moreSpecific_iff, UInt32.lt_iff_toNat_lt,
      UInt32.lt_iff_toNat_lt, ← UInt32.toNat_inj]
  refine ⟨fun a _ => ?_, fun a _ b _ c _ => ?_, fun a _ b _ c _ => ?_⟩
  · rw [← Bool.not_eq_true, hiff]
    omega
  · rw [hiff, hiff, hiff]
    omega
  · simp only [← Bool.not_eq_true, hiff]
    omega

/-! ## Ranked routes -/

namespace Draft

variable {d d' : Draft α} {prefers : Route α → Route α → Bool}

theorem ranked_perm (d : Draft α) (prefers : Route α → Route α → Bool) :
    (d.ranked prefers).Perm d.routes :=
  List.mergeSort_perm _ _

theorem ranked_eq_attach (d : Draft α) (prefers : Route α → Route α → Bool) :
    d.ranked prefers = (d.routes.attach.mergeSort fun x y => !prefers y.1 x.1).map (·.1) := by
  rw [ranked, List.map_mergeSort (s := fun x y => !prefers y x), List.attach_map_subtype_val]
  exact fun _ _ _ _ => rfl

section Sorted

variable (h : StrictWeakOrder d.routes prefers)

include h

theorem le_trans_attach (a b c : {x // x ∈ d.routes}) (hab : !prefers b.1 a.1)
    (hbc : !prefers c.1 b.1) : !prefers c.1 a.1 := by
  rw [Bool.not_eq_true'] at *
  exact h.not_prefers_trans a.2 b.2 c.2 hab hbc

theorem le_total_attach (a b : {x // x ∈ d.routes}) : !prefers b.1 a.1 || !prefers a.1 b.1 := by
  cases hba : prefers b.1 a.1 with
  | false => rfl
  | true => rw [h.asymm b.2 a.2 hba]; rfl

theorem pairwise_ranked : (d.ranked prefers).Pairwise fun x y => prefers y x = false := by
  rw [ranked_eq_attach, List.pairwise_map]
  apply (List.pairwise_mergeSort (le_trans_attach h) (le_total_attach h) _).imp
  intro a b hab
  rwa [Bool.not_eq_true'] at hab

/-- Of two routes that were added one after the other, the earlier one is ranked first unless the
later one is preferred. -/
theorem sublist_ranked {x y : Route α} (hxy : [x, y].Sublist d.routes) (hp : prefers y x = false) :
    [x, y].Sublist (d.ranked prefers) := by
  rw [ranked_eq_attach]
  rw [← List.attach_map_subtype_val d.routes, List.sublist_map_iff] at hxy
  obtain ⟨l, hl, he⟩ := hxy
  obtain ⟨a, b, rfl⟩ : ∃ a b, l = [a, b] := by
    match l, he with
    | [a, b], _ => exact ⟨a, b, rfl⟩
  simp only [List.map_cons, List.map_nil, List.cons.injEq, and_true] at he
  obtain ⟨rfl, rfl⟩ := he
  refine List.sublist_map_iff.2 ⟨[a, b], ?_, rfl⟩
  refine List.pair_sublist_mergeSort (le_trans_attach h) (le_total_attach h) ?_ hl
  rw [hp]
  rfl

/-- Of two ranked routes the first one is preferred, or they are equal and it was added first. -/
theorem pairwise_ranked_of_nodup (hnd : d.routes.Nodup) : (d.ranked prefers).Pairwise fun x y =>
    prefers y x = false ∧ (prefers x y = false → [x, y].Sublist d.routes) := by
  have hnd' : (d.ranked prefers).Nodup := (ranked_perm d prefers).nodup_iff.2 hnd
  rw [List.pairwise_iff_forall_sublist]
  intro x y hxy
  refine ⟨(pairwise_ranked h).forall_sublist hxy, fun hp => ?_⟩
  have hx : x ∈ d.routes := (ranked_perm d prefers).subset (hxy.subset (by simp))
  have hy : y ∈ d.routes := (ranked_perm d prefers).subset (hxy.subset (by simp))
  have hne : x ≠ y := List.Pairwise.forall_sublist hnd' hxy
  apply (pair_sublist_or hx hy hne).resolve_right
  intro hyx
  exact not_sublist_swap hnd' hxy (sublist_ranked h hyx hp)

end Sorted

/-- No other order of the routes has those to be preferred first, and equal ones in the order in
which they were added. -/
theorem eq_ranked (h : StrictWeakOrder d.routes prefers) (hnd : d.routes.Nodup)
    {l : List (Route α)} (hperm : l.Perm d.routes)
    (hl : l.Pairwise fun x y =>
      prefers y x = false ∧ (prefers x y = false → [x, y].Sublist d.routes)) :
    l = d.ranked prefers := by
  refine List.Perm.eq_of_pairwise ?_ hl (pairwise_ranked_of_nodup h hnd)
    (hperm.trans (ranked_perm d prefers).symm)
  intro x y _ _ hxy hyx
  exact absurd (hyx.2 hxy.1) (not_sublist_swap hnd (hxy.2 hyx.1))

theorem ranked_filter (h : StrictWeakOrder d.routes prefers) (hnd : d.routes.Nodup)
    {keep : Route α → Bool} (hd' : d'.routes = d.routes.filter keep) :
    d'.ranked prefers = (d.ranked prefers).filter keep := by
  have hsub : d'.routes.Sublist d.routes := hd' ▸ List.filter_sublist
  refine (eq_ranked (h.mono hsub.subset) (hnd.sublist hsub) ?_ ?_).symm
  · rw [hd']
    exact (ranked_perm d prefers).filter keep
  · refine ((pairwise_ranked_of_nodup h hnd).filter keep).imp_of_mem ?_
    intro x y hx hy hxy
    refine ⟨hxy.1, fun hp => ?_⟩
    have hpair := (hxy.2 hp).filter keep
    rwa [List.filter_cons_of_pos (List.mem_filter.1 hx).2,
      List.filter_cons_of_pos (List.mem_filter.1 hy).2, List.filter_nil, ← hd'] at hpair

/-- The same routes in another order are ranked in the same way, if equal ones stay in the order in
which they were added. -/
theorem ranked_eq_of_perm (h : StrictWeakOrder d.routes prefers) (hnd : d.routes.Nodup)
    (hperm : d'.routes.Perm d.routes)
    (hties : ∀ x y, prefers x y = false → prefers y x = false → [x, y].Sublist d.routes →
      [x, y].Sublist d'.routes) :
    d'.ranked prefers = d.ranked prefers := by
  refine (eq_ranked (h.mono hperm.subset) (hperm.nodup_iff.2 hnd) ?_ ?_).symm
  · exact (ranked_perm d prefers).trans hperm.symm
  · refine (pairwise_ranked_of_nodup h hnd).imp ?_
    intro x y hxy
    exact ⟨hxy.1, fun hp => hties x y hp hxy.1 (hxy.2 hp)⟩

end Draft

end RouteTable
