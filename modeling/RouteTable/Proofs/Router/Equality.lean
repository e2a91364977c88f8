import RouteTable.Proofs.Pattern.Braces
import RouteTable.Proofs.Pattern.Shape
import RouteTable.Proofs.Router.Registration

/-!
# Patterns with the same text

Patterns are compared by the texts that spell them. Two patterns of the same text are the same if
they have the same shape, since the names of the variables can be read off the text. They are the
same, too, if the braces of their rules are balanced, and those of patterns that were read from
texts always are.

* `Segment.eq_of_flatMap_spell_eq`: rows of alike segments that are spelled by the same text are the
  same
* `Pattern.keepsBraces`: the braces of all rules are balanced
* `Accepted.keepsBraces_iff`: these are the patterns whose text is read into their segments
* `Accepted.same_of_source_eq`: what patterns of the same text have in common
-/

namespace RouteTable

/-! ## Names within a text -/

/-- The name of a variable ends at the first colon or closing brace of its declaration. Once the
rule is known, the variable is told apart from what follows it. -/
theorem Variable.eq_of_spell_append_eq {v w : Variable} (hv : isName v.name) (hw : isName w.name)
    (hrule : v.rule = w.rule) {r s : Bytes} (h : v.spell ++ r = w.spell ++ s) :
    v = w ∧ r = s := by
  have hname : ∀ {v : Variable} (r : Bytes), isName v.name →
      (v.body ++ Byte.closeBrace :: r).takeWhile
        (fun b => b != Byte.colon && b != Byte.closeBrace) = v.name := by
    intro v r hv
    have hne : ∀ b ∈ v.name, (b != Byte.colon && b != Byte.closeBrace) = true := fun b hb => by
      rw [bne_iff_ne.2 (ne_of_mem_name hv hb).2.2.2, bne_iff_ne.2 (ne_of_mem_name hv hb).1,
        Bool.and_self]
    rw [body, List.append_assoc, List.takeWhile_append_of_pos hne]
    cases v.isDefault <;> simp
  simp only [spell_eq, List.cons_append, List.append_assoc, List.nil_append, List.cons.injEq,
    true_and] at h
  have hnames : v.name = w.name := by rw [← hname r hv, h, hname s hw]
  obtain ⟨name, rule, isDefault⟩ := v
  obtain ⟨name', rule', isDefault'⟩ := w
  obtain rfl : name = name' := hnames
  obtain rfl : rule = rule' := hrule
  simp only [body, List.append_assoc, List.append_cancel_left_eq] at h
  have hne : Byte.colon ≠ Byte.closeBrace := by decide
  cases isDefault with
  | true =>
    cases isDefault' with
    | true => exact ⟨rfl, (List.cons.inj h).2⟩
    | false => exact absurd (List.cons.inj h).1.symm hne
  | false =>
    cases isDefault' with
    | true => exact absurd (List.cons.inj h).1 hne
    | false => exact ⟨rfl, (List.cons.inj (List.append_cancel_left (List.cons.inj h).2)).2⟩

namespace Segment

variable {l l' : List Segment}

/-- Rows of alike segments that are spelled by the same text are the same. -/
theorem eq_of_flatMap_spell_eq (h : List.Forall₂ Alike l l')
    (hn : ∀ v ∈ vars l, Variable.isName v.name)
    (hn' : ∀ v ∈ vars l', Variable.isName v.name) (he : l.flatMap spell = l'.flatMap spell) :
    l = l' := by
  induction h with
  | nil => rfl
  | cons hx _ ih =>
    rw [List.flatMap_cons, List.flatMap_cons] at he
    cases hx with
    | literal text => rw [ih hn hn' (List.append_cancel_left he)]
    | var hrule =>
      obtain ⟨hv, hn⟩ := List.forall_mem_cons.1 hn
      obtain ⟨hw, hns⟩ := List.forall_mem_cons.1 hn'
      obtain ⟨rfl, hrest⟩ := Variable.eq_of_spell_append_eq hv hw hrule he
      rw [ih hn hns hrest]

end Segment

/-! ## Accepted patterns -/

namespace Pattern

def keepsBraces (p : Pattern) : Bool :=
  (Segment.vars p.segments).all fun v => v.isDefault || v.closesBraces

namespace Accepted

variable {a b p : Pattern}

theorem exists_compile (h : p.Accepted) : ∃ row, compile row = .ok p := by
  obtain ⟨input, h⟩ := h
  cases input with
  | source text =>
    obtain ⟨segments, hscan, hbuild⟩ := parse_eq_ok_iff.1 h
    obtain ⟨-, hs⟩ := Segment.scan_eq_ok_iff.1 hscan
    exact ⟨segments, (compile_eq_build hs).trans hbuild⟩
  | segments row => exact ⟨row, h⟩

theorem source_eq (h : p.Accepted) : p.source = p.segments.flatMap Segment.spell := by
  obtain ⟨row, h⟩ := h.exists_compile
  obtain ⟨-, hbuild⟩ := compile_eq_ok_iff.1 h
  obtain ⟨_, _, -, -, rfl⟩ := build_eq_ok_iff.1 hbuild
  rfl

theorem isName (h : p.Accepted) : ∀ v ∈ Segment.vars p.segments, Variable.isName v.name := by
  obtain ⟨_, hvalid, -⟩ := h.exists_counts
  exact Segment.isName_of_validateWith hvalid

/-- The braces are balanced if and only if the text of the pattern is read into its segments. -/
theorem keepsBraces_iff (h : p.Accepted) : p.keepsBraces ↔ Segment.Scans p.source p.segments := by
  obtain ⟨row, hrow⟩ := h.exists_compile
  obtain ⟨hb, hbuild⟩ := compile_eq_ok_iff.1 hrow
  have hn := h.isName
  obtain ⟨_, _, -, -, rfl⟩ := build_eq_ok_iff.1 hbuild
  rw [keepsBraces, List.all_eq_true]
  simp only [Bool.or_eq_true]
  exact (Segment.scans_flatMap_spell_iff (Segment.isNormal_normalize row) hb hn
    Segment.normalize_of_mem_vars).symm

theorem eq_of_segments_eq (ha : a.Accepted) (hb : b.Accepted) (hs : a.source = b.source)
    (h : a.segments = b.segments) : a = b := by
  have hbuild := ha.build_eq
  rw [hs, h, hb.build_eq] at hbuild
  exact (Except.ok.inj hbuild).symm

theorem eq_of_shape_eq (ha : a.Accepted) (hb : b.Accepted) (hs : a.source = b.source)
    (h : a.shape = b.shape) : a = b := by
  refine ha.eq_of_segments_eq hb hs ?_
  refine Segment.eq_of_flatMap_spell_eq (Segment.flatMap_shape_eq_iff.1 h) ha.isName hb.isName ?_
  rw [← ha.source_eq, ← hb.source_eq, hs]

end Accepted

theorem keepsBraces_of_parse {text : Bytes} {p : Pattern} (h : parse text = .ok p) :
    p.keepsBraces := by
  have hp : p.Accepted := ⟨.source text, h⟩
  obtain ⟨segments, hscan, hbuild⟩ := parse_eq_ok_iff.1 h
  obtain ⟨_, _, -, -, rfl⟩ := build_eq_ok_iff.1 hbuild
  exact hp.keepsBraces_iff.2 (Segment.scan_eq_ok_iff.1 hscan).2

end Pattern

namespace Pattern.Accepted

variable {a b : Pattern}

theorem eq_of_keepsBraces (ha : a.Accepted) (hb : b.Accepted) (hs : a.source = b.source)
    (hka : a.keepsBraces) (hkb : b.keepsBraces) : a = b := by
  refine ha.eq_of_segments_eq hb hs ?_
  have hread := (ha.keepsBraces_iff.1 hka).scanFrom_eq 0
  rw [hs, (hb.keepsBraces_iff.1 hkb).scanFrom_eq 0] at hread
  exact (Except.ok.inj hread).symm

/-- Of two patterns with the same text, one of which has balanced braces, the other one has them,
too, if and only if both have the same shape; a pattern that was read from a text has them. Patterns
with the same text and the same shape match the same paths with the same bindings, and a draft with
a route for one of them refuses the other as its duplicate. -/
theorem same_of_source_eq (ha : a.Accepted) (hb : b.Accepted) (hs : a.source = b.source) :
    (∀ text p, parse text = .ok p → p.keepsBraces) ∧
    (a.keepsBraces → (b.keepsBraces ↔ a.shape = b.shape)) ∧
    (a.shape = b.shape → (∀ path, a.match? path = b.match? path) ∧
      ∀ {α : Type} (config : IndexConfig) (calls : List (PatternInput × α))
        (input : PatternInput) (value : α), let d := ({ config } : Draft α).addAll calls
        ∀ x ∈ d.routes, x.pattern = a → input.read = .ok b →
          Draft.addInPlace input value d = .error (.duplicate ⟨b.source, a.source⟩) d) := by
  refine ⟨fun text p => keepsBraces_of_parse, fun hka => ⟨fun hkb => ?_, fun h => ?_⟩,
    fun h => ?_⟩
  · rw [ha.eq_of_keepsBraces hb hs hka hkb]
  · rwa [← ha.eq_of_shape_eq hb hs h]
  · obtain rfl := ha.eq_of_shape_eq hb hs h
    refine ⟨fun path => rfl, fun config calls input value x hx hxa hread => ?_⟩
    have hd := Draft.wellFormed_addAll (Draft.wellFormed_empty config) calls
    have hsource := hd.source?_shape hx
    rw [hxa] at hsource
    rw [Draft.addInPlace_eq, Draft.addInput_of_duplicate hread hsource]

/-- A pattern that was read from a text, and one that was put together from segments. -/
theorem same_of_source_eq_compiled :
    let text := Bytes.ofString "/\x7bx:[0-9]\x7b2\x7d\x7d"
    let row := [Segment.literal (.ofString "/"),
      .var ⟨.ofString "x", .ofString "[0-9]\x7b2\x7d", false⟩]
    ∃ a b, parse text = .ok a ∧ compile row = .ok b ∧ a.source = b.source ∧
      b.keepsBraces ∧ a.shape = b.shape ∧
      a.match? (.ofString "/12") = b.match? (.ofString "/12") := by
  intro text row
  have ha : (parse text).toOption.map (·.source) = some text := by decide +kernel
  have hb : (compile row).toOption.map (fun b => (b.source, b.keepsBraces)) =
      some (text, true) := by
    decide +kernel
  obtain ⟨a, ha, hsource⟩ := exists_of_toOption_map ha
  obtain ⟨b, hb, he⟩ := exists_of_toOption_map hb
  obtain ⟨hsource', hkeeps⟩ := Prod.mk.inj he
  have hs : a.source = b.source := hsource.trans hsource'.symm
  obtain ⟨hparse, hiff, hsame⟩ :=
    same_of_source_eq ⟨.source text, ha⟩ ⟨.segments row, hb⟩ hs
  have hshape := (hiff (hparse text a ha)).1 hkeeps
  exact ⟨a, b, ha, hb, hs, hkeeps, hshape, (hsame hshape).1 _⟩

/-- The text of two variables is also that of one variable whose rule closes a brace too many and
opens another one. A draft takes both patterns. -/
theorem same_of_source_eq_unbalanced :
    let text := Bytes.ofString "\x7bx:a\x7d\x7by:b\x7d"
    let row := [Segment.var ⟨.ofString "x", .ofString "a\x7d\x7by:b", false⟩]
    ∃ a b, parse text = .ok a ∧ compile row = .ok b ∧ a.source = b.source ∧
      a.shape ≠ b.shape ∧
      (({} : Draft Nat).addAll [(.source text, 1), (.segments row, 2)]).routes.map (·.pattern) =
        [a, b] := by
  intro text row
  have ha : (parse text).toOption.map (fun a => (a.source, a.segments)) =
      some (text, [.var ⟨.ofString "x", .ofString "a", false⟩,
        .var ⟨.ofString "y", .ofString "b", false⟩]) := by
    decide +kernel
  have hb : (compile row).toOption.map (fun b => (b.source, b.segments)) = some (text, row) := by
    decide +kernel
  have hroutes : (({} : Draft Nat).addAll [(.source text, 1), (.segments row, 2)]).routes.map
      (fun x => some x.pattern) = [(parse text).toOption, (compile row).toOption] := by
    decide +kernel
  obtain ⟨a, ha, he⟩ := exists_of_toOption_map ha
  obtain ⟨b, hb, he'⟩ := exists_of_toOption_map hb
  obtain ⟨hsource, hsegments⟩ := Prod.mk.inj he
  obtain ⟨hsource', hsegments'⟩ := Prod.mk.inj he'
  refine ⟨a, b, ha, hb, hsource.trans hsource'.symm, ?_, ?_⟩
  · rw [shape, shape, hsegments, hsegments']
    decide +kernel
  · rw [ha, hb] at hroutes
    refine List.map_injective_iff.2 (Option.some_injective Pattern) ?_
    rw [List.map_map]
    exact hroutes

end Pattern.Accepted

end RouteTable
