import RouteTable.Proofs.Pattern.Braces

/-!
# Rows of segments that come to the same

Rows of segments are simplified at any place and in any order: empty literals are dropped, literals
that follow each other are joined, and default variables get their rule. Which row comes out at the
end does not depend on the order, and a pattern depends on nothing but this row.

* `Segment.Simplifies`: one simplification
* `Segment.absorb`, `foldl_absorb_eq_normalize`: a row is made normal segment by segment, from left
  to right
* `join_simplifies_iff`: rows come to the same if they have the same normal row
* `Pattern.compile_of_join`: rows that come to the same make the same pattern, or fail in the same
  way
-/

namespace RouteTable

namespace Segment

variable {row row' : List Segment}

/-! ## Simplifications -/

inductive Simplifies : List Segment → List Segment → Prop
  | drop (before after : List Segment) :
      Simplifies (before ++ literal [] :: after) (before ++ after)
  | join (before : List Segment) (text next : Bytes) (after : List Segment) :
      Simplifies (before ++ literal text :: literal next :: after)
        (before ++ literal (text ++ next) :: after)
  | settle (before : List Segment) {v : Variable} (hv : v.isDefault)
      (hrule : v.rule ≠ Variable.defaultRule) (after : List Segment) :
      Simplifies (before ++ var v :: after)
        (before ++ var { v with rule := Variable.defaultRule } :: after)

theorem normalize_append_congr (h : normalize row = normalize row') (before : List Segment) :
    normalize (before ++ row) = normalize (before ++ row') := by
  induction before with
  | nil => exact h
  | cons segment before ih =>
    cases segment <;> rw [List.cons_append, List.cons_append, normalize, normalize, ih]

namespace Simplifies

theorem append_right (h : Simplifies row row') (after : List Segment) :
    Simplifies (row ++ after) (row' ++ after) := by
  cases h with
  | drop before rest =>
    rw [List.append_assoc, List.append_assoc]
    exact .drop before (rest ++ after)
  | join before text next rest =>
    rw [List.append_assoc, List.append_assoc]
    exact .join before text next (rest ++ after)
  | settle before hv hrule rest =>
    rw [List.append_assoc, List.append_assoc]
    exact .settle before hv hrule (rest ++ after)

theorem normalize_eq (h : Simplifies row row') : normalize row = normalize row' := by
  cases h with
  | drop before after =>
    refine normalize_append_congr ?_ before
    rw [normalize, prepend_nil]
  | join before text next after =>
    refine normalize_append_congr ?_ before
    rw [normalize, normalize, normalize, prepend_prepend]
  | settle before hv _ after =>
    refine normalize_append_congr ?_ before
    rw [normalize, normalize, Variable.normalize, Variable.normalize, if_pos hv, if_pos hv]

end Simplifies

theorem normalize_eq_of_simplifies (h : Relation.ReflTransGen Simplifies row row') :
    normalize row = normalize row' := by
  induction h with
  | refl => rfl
  | tail _ hstep ih => exact ih.trans hstep.normalize_eq

/-! ## Normal rows -/

theorem isNormal_iff : IsNormal row ↔ literal [] ∉ row ∧
    row.IsChain fun s s' => ∀ text next, s = literal text → s' ≠ literal next := by
  induction row with
  | nil => exact iff_of_true trivial ⟨List.not_mem_nil, .nil⟩
  | cons segment row ih =>
    rw [List.isChain_cons, List.mem_cons, not_or]
    cases segment with
    | literal text =>
      rw [IsNormal, ih]
      constructor
      · rintro ⟨htext, hnext, hempty, hchain⟩
        refine ⟨⟨fun he => htext (Segment.literal.inj he).symm, hempty⟩, ?_, hchain⟩
        rintro s hs - next - rfl
        obtain ⟨rest, rfl⟩ := List.head?_eq_some_iff.1 hs
        exact hnext next rest rfl
      · rintro ⟨⟨htext, hempty⟩, hnext, hchain⟩
        refine ⟨fun he => htext (congrArg literal he).symm, ?_, hempty, hchain⟩
        rintro next rest rfl
        exact hnext _ rfl text next rfl rfl
    | var v =>
      rw [IsNormal, ih]
      constructor
      · rintro ⟨hempty, hchain⟩
        exact ⟨⟨nofun, hempty⟩, fun _ _ _ _ => nofun, hchain⟩
      · rintro ⟨⟨-, hempty⟩, -, hchain⟩
        exact ⟨hempty, hchain⟩

/-- A normal row with one segment more is normal, unless the segment is an empty literal or follows
another literal as one. -/
theorem isNormal_concat_iff {s : Segment} : IsNormal (row ++ [s]) ↔
    IsNormal row ∧ s ≠ literal [] ∧ ∀ last text, row.getLast? = some (literal last) →
      s ≠ literal text := by
  rw [isNormal_iff, isNormal_iff, List.isChain_append]
  constructor
  · rintro ⟨hempty, hchain, -, hlast⟩
    rw [List.mem_append, not_or, List.mem_singleton] at hempty
    exact ⟨⟨hempty.1, hchain⟩, Ne.symm hempty.2,
      fun last text hl => hlast _ hl s rfl last text rfl⟩
  · rintro ⟨⟨hempty, hchain⟩, hs, hlast⟩
    refine ⟨?_, hchain, .singleton s, ?_⟩
    · rw [List.mem_append, not_or, List.mem_singleton]
      exact ⟨hempty, hs.symm⟩
    · rintro _ hl _ ⟨⟩ last text rfl
      exact hlast last text hl

theorem normalize_eq_self_iff :
    normalize row = row ↔ IsNormal row ∧ ∀ v ∈ vars row, v.normalize = v := by
  constructor
  · intro h
    rw [← h]
    exact ⟨isNormal_normalize row, normalize_of_mem_vars⟩
  · intro h
    exact h.1.normalize_eq h.2

theorem vars_append (before after : List Segment) : vars (before ++ after) = vars before ++
    vars after := by
  induction before with
  | nil => rfl
  | cons segment before ih => cases segment <;> simp [vars, ih]

theorem not_simplifies_of_normalize_eq (h : normalize row = row) : ¬ Simplifies row row' := by
  obtain ⟨hnormal, hvars⟩ := normalize_eq_self_iff.1 h
  obtain ⟨hempty, hchain⟩ := isNormal_iff.1 hnormal
  intro hs
  cases hs with
  | drop before after => exact hempty (by simp)
  | join before text next after =>
    exact (List.isChain_append_cons_cons.1 hchain).2.1 text next rfl rfl
  | @settle before v hv hrule after =>
    have hv' := hvars v (mem_vars_iff.2 (by simp))
    rw [Variable.normalize, if_pos hv] at hv'
    exact hrule (congrArg Variable.rule hv').symm

/-! ## From left to right -/

/-- What becomes of a normal row with one segment more: a literal is put to the end of the last one.
-/
def absorb (row : List Segment) : Segment → List Segment
  | literal text =>
    if text = [] then row
    else
      match row.getLast? with
      | some (literal last) => row.dropLast ++ [literal (last ++ text)]
      | _ => row ++ [literal text]
  | var v => row ++ [var v.normalize]

theorem simplifies_absorb (row : List Segment) (s : Segment) :
    Relation.ReflTransGen Simplifies (row ++ [s]) (absorb row s) := by
  fun_cases absorb row s with
  | case1 =>
    have := Simplifies.drop row []
    rw [List.append_nil] at this
    exact .single this
  | case2 text _ last hlast =>
    obtain ⟨before, rfl⟩ := List.getLast?_eq_some_iff.1 hlast
    rw [List.dropLast_concat, List.append_assoc]
    exact .single (.join before last text [])
  | case3 => exact .refl
  | case4 v =>
    by_cases hv : v.isDefault
    · rw [Variable.normalize, if_pos hv]
      by_cases hrule : v.rule = Variable.defaultRule
      · rw [← hrule]
      · exact .single (.settle row hv hrule [])
    · rw [Variable.normalize, if_neg hv]

theorem normalize_absorb (h : normalize row = row) (s : Segment) :
    normalize (absorb row s) = absorb row s := by
  obtain ⟨hnormal, hvars⟩ := normalize_eq_self_iff.1 h
  rw [normalize_eq_self_iff]
  fun_cases absorb row s with
  | case1 => exact ⟨hnormal, hvars⟩
  | case2 text ht last hlast =>
    obtain ⟨before, rfl⟩ := List.getLast?_eq_some_iff.1 hlast
    rw [vars_append] at hvars
    rw [List.dropLast_concat, vars_append]
    obtain ⟨hbefore, -, hapart⟩ := isNormal_concat_iff.1 hnormal
    refine ⟨isNormal_concat_iff.2 ⟨hbefore, ?_,
      fun last' next hl => absurd rfl (hapart last' last hl)⟩, hvars⟩
    exact fun he => ht (List.append_eq_nil_iff.1 (Segment.literal.inj he)).2
  | case3 text ht hlast =>
    rw [vars_append]
    refine ⟨isNormal_concat_iff.2 ⟨hnormal, fun he => ht (Segment.literal.inj he), ?_⟩, ?_⟩
    · exact fun last next hl => absurd hl (hlast last)
    · simpa [vars] using hvars
  | case4 v =>
    rw [vars_append]
    refine ⟨isNormal_concat_iff.2 ⟨hnormal, by simp, by simp⟩, ?_⟩
    intro w hw
    rcases List.mem_append.1 hw with hw | hw
    · exact hvars w hw
    · rw [List.mem_singleton.1 hw, Variable.normalize_normalize]

/-- Segments that are absorbed one by one simplify the row of them. -/
theorem simplifies_foldl_absorb (row' row : List Segment) :
    Relation.ReflTransGen Simplifies (row' ++ row) (row.foldl absorb row') := by
  induction row generalizing row' with
  | nil =>
    rw [List.append_nil]
    exact .refl
  | cons s row ih =>
    have hstep : Relation.ReflTransGen Simplifies ((row' ++ [s]) ++ row) (absorb row' s ++ row) :=
      (simplifies_absorb row' s).lift (· ++ row) fun _ _ h => h.append_right row
    rw [List.append_assoc] at hstep
    exact hstep.trans (ih _)

theorem normalize_foldl_absorb (h : normalize row' = row') (row : List Segment) :
    normalize (row.foldl absorb row') = row.foldl absorb row' := by
  induction row generalizing row' with
  | nil => exact h
  | cons s row ih => exact ih (normalize_absorb h s)

/-- The segments of a row make its normal row, if they are absorbed one by one. -/
theorem foldl_absorb_eq_normalize (row : List Segment) : row.foldl absorb [] = normalize row := by
  rw [← normalize_foldl_absorb rfl]
  exact (normalize_eq_of_simplifies (simplifies_foldl_absorb [] row)).symm

theorem simplifies_normalize (row : List Segment) :
    Relation.ReflTransGen Simplifies row (normalize row) := by
  rw [← foldl_absorb_eq_normalize]
  exact simplifies_foldl_absorb [] row

theorem normalize_normalize (row : List Segment) : normalize (normalize row) = normalize row :=
  (normalize_eq_of_simplifies (simplifies_normalize row)).symm

/-- Rows come to the same if they have the same normal row. -/
theorem join_simplifies_iff :
    Relation.Join (Relation.ReflTransGen Simplifies) row row' ↔
      normalize row = normalize row' := by
  constructor
  · rintro ⟨common, h, h'⟩
    exact (normalize_eq_of_simplifies h).trans (normalize_eq_of_simplifies h').symm
  · intro h
    exact ⟨normalize row, simplifies_normalize row, h ▸ simplifies_normalize row'⟩

end Segment

namespace Pattern

open Segment

theorem compile_congr {row row' : List Segment} (h : normalize row = normalize row') :
    compile row = compile row' := by
  rw [compile, compile, h]

/-- Rows that come to the same make the same pattern, or fail with the same error. The segments of
the pattern are the row that nothing can be simplified of, with no empty literal and no two literals
that follow each other; it is what comes of the segments from left to right, and it makes this
pattern again. -/
theorem compile_of_join {row row' : List Segment}
    (h : Relation.Join (Relation.ReflTransGen Simplifies) row row') :
    (∃ p, compile row = .ok p ∧ compile row' = .ok p ∧ compile p.segments = .ok p ∧
      p.segments = row.foldl absorb [] ∧ Relation.ReflTransGen Simplifies row p.segments ∧
      (∀ simpler, ¬ Simplifies p.segments simpler) ∧ IsNormal p.segments) ∨
    ∃ e, compile row = .error e ∧ compile row' = .error e := by
  rw [← compile_congr (join_simplifies_iff.1 h)]
  cases hrow : compile row with
  | error e => exact Or.inr ⟨e, rfl, rfl⟩
  | ok p =>
    obtain ⟨-, hbuild⟩ := compile_eq_ok_iff.1 hrow
    obtain ⟨_, _, -, -, hp⟩ := build_eq_ok_iff.1 hbuild
    have hsegments : p.segments = normalize row := by rw [hp]
    refine Or.inl ⟨p, rfl, rfl, ?_⟩
    rw [hsegments, foldl_absorb_eq_normalize, compile_congr (normalize_normalize row)]
    exact ⟨hrow, rfl, simplifies_normalize row,
      fun _ => not_simplifies_of_normalize_eq (normalize_normalize row), isNormal_normalize row⟩

/-- A sequence of two bytes that two literals share with an empty one between them, and a default
variable with a rule of its own. -/
theorem compile_of_join_cut :
    let row := [literal [0x2F, 0xC3], literal [], literal [0xBC],
      var ⟨.ofString "x", .ofString "[", true⟩]
    let row' := [literal (.ofString "/ü"), var ⟨.ofString "x", [], true⟩, literal []]
    row ≠ row' ∧ ∃ p, compile row = .ok p ∧ compile row' = .ok p ∧
      p.segments =
        [literal (.ofString "/ü"), var ⟨.ofString "x", Variable.defaultRule, true⟩] := by
  intro row row'
  have hjoin : Relation.Join (Relation.ReflTransGen Simplifies) row row' :=
    join_simplifies_iff.2 (by decide +kernel)
  have hrow : (compile row).toOption.map (·.segments) =
      some [literal (.ofString "/ü"), var ⟨.ofString "x", Variable.defaultRule, true⟩] := by
    decide +kernel
  obtain ⟨p, hp, hsegments⟩ := exists_of_toOption_map hrow
  rcases compile_of_join hjoin with ⟨q, hq, hq', -⟩ | ⟨e, he, -⟩
  · obtain rfl := Except.ok.inj (hp.symm.trans hq)
    exact ⟨by decide +kernel, p, hp, hq', hsegments⟩
  · exact nomatch hp.symm.trans he

end Pattern

end RouteTable
