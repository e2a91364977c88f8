import RouteTable.Proofs.Pattern.Matching

/-!
# Shapes of patterns

A shape is read back from its bytes: each of its parts tells how long it is, and so no text within
it is taken for a part. What is left out of it are the names of variables and whether they were
declared by default, and these have no influence on the paths that a pattern matches, nor on the
values that it finds.

* `Segment.Alike`: two segments with the same part of a shape
* `Segment.flatMap_shape_eq_iff`: two rows have the same shape if and only if their segments are
  alike
* `Pattern.values?`: the values of the variables in their order, without their names
* `Accepted.shape_eq_iff_alike`: patterns of the same shape, and what they have in common
-/

namespace RouteTable

/-! ## Texts with their length in front -/

theorem colon_notMem_repr (n : Nat) : Byte.colon ∉ Bytes.ofString n.repr := by
  intro h
  rw [Bytes.ofString, Nat.toList_repr] at h
  obtain ⟨c, hc, h⟩ := List.mem_flatMap.1 h
  have hdigit : c.isDigit := Nat.isDigit_of_mem_toDigits (by decide) (by decide) hc
  have hlt : c.toNat < 0x80 := by
    simp only [Char.isDigit, Bool.and_eq_true, decide_eq_true_eq] at hdigit
    have := UInt32.le_iff_toNat_le.1 hdigit.2
    exact Nat.lt_of_le_of_lt this (by decide)
  have hascii : ∀ c : Char,
      c.toNat < 0x80 → c.isDigit → Byte.colon ∉ String.utf8EncodeChar c :=
    Regex.forall_ascii (by decide +kernel)
  exact hascii c hlt hdigit h

/-- What comes before the first colon is told apart from what comes after it. -/
theorem append_colon_inj {a b r s : Bytes} (ha : Byte.colon ∉ a) (hb : Byte.colon ∉ b)
    (h : a ++ Byte.colon :: r = b ++ Byte.colon :: s) : a = b ∧ r = s := by
  have htake : ∀ {a : Bytes} (r : Bytes), Byte.colon ∉ a →
      (a ++ Byte.colon :: r).takeWhile (· != Byte.colon) = a := by
    intro a r ha
    have hne : ∀ b ∈ a, (b != Byte.colon) = true :=
      fun b hb => bne_iff_ne.2 fun he => ha (he ▸ hb)
    rw [List.takeWhile_append_of_pos hne, List.takeWhile_cons_of_neg (by decide), List.append_nil]
  have hab : a = b := by rw [← htake r ha, h, htake s hb]
  subst hab
  exact ⟨rfl, (List.cons.inj (List.append_cancel_left h)).2⟩

namespace Segment

/-- A text with its length in front is told apart from what follows it. -/
theorem sized_append_inj {a b r s : Bytes} (h : shape.sized a ++ r = shape.sized b ++ s) :
    a = b ∧ r = s := by
  have hcolon : Bytes.ofString ":" = [Byte.colon] := by decide +kernel
  simp only [shape.sized, hcolon, List.append_assoc, List.singleton_append] at h
  obtain ⟨hlength, h⟩ := append_colon_inj (colon_notMem_repr _) (colon_notMem_repr _) h
  refine List.append_inj h (Nat.repr_injective ?_)
  exact String.toList_inj.1 (Utf8.encode_injective hlength)

/-! ## Segments that are alike -/

inductive Alike : Segment → Segment → Prop
  | literal (text : Bytes) : Alike (literal text) (literal text)
  | var {v w : Variable} (h : v.rule = w.rule) : Alike (var v) (var w)

theorem shape_append_eq_iff {x y : Segment} {r s : Bytes} :
    x.shape ++ r = y.shape ++ s ↔ Alike x y ∧ r = s := by
  have hL : Bytes.ofString "L" = [0x4C] := by decide +kernel
  have hV : Bytes.ofString "V" = [0x56] := by decide +kernel
  constructor
  · intro h
    cases x with
    | literal text =>
      cases y with
      | literal text' =>
        rw [shape, shape, List.append_assoc, List.append_assoc] at h
        obtain ⟨rfl, rfl⟩ := sized_append_inj (List.append_cancel_left h)
        exact ⟨.literal text, rfl⟩
      | var w => simp [shape, hL, hV] at h
    | var v =>
      cases y with
      | literal text => simp [shape, hL, hV] at h
      | var w =>
        rw [shape, shape, List.append_assoc, List.append_assoc] at h
        obtain ⟨hrule, rfl⟩ := sized_append_inj (List.append_cancel_left h)
        exact ⟨.var hrule, rfl⟩
  · rintro ⟨h, rfl⟩
    cases h with
    | literal text => rfl
    | var h => rw [shape, shape, h]

theorem shape_ne_nil (x : Segment) : x.shape ≠ [] := by
  have hL : Bytes.ofString "L" ≠ [] := by decide +kernel
  have hV : Bytes.ofString "V" ≠ [] := by decide +kernel
  cases x with
  | literal text => exact List.append_ne_nil_of_left_ne_nil hL _
  | var v => exact List.append_ne_nil_of_left_ne_nil hV _

variable {l l' : List Segment}

/-- Two rows have the same shape if and only if they have the same length and their segments are
alike. -/
theorem flatMap_shape_eq_iff : l.flatMap shape = l'.flatMap shape ↔
    List.Forall₂ Alike l l' := by
  induction l generalizing l' with
  | nil =>
    cases l' with
    | nil => exact iff_of_true rfl .nil
    | cons y l' => simp [shape_ne_nil]
  | cons x l ih =>
    cases l' with
    | nil => simp [shape_ne_nil]
    | cons y l' =>
      rw [List.flatMap_cons, List.flatMap_cons, shape_append_eq_iff, ih, List.forall₂_cons]

/-! ## What rows of alike segments have in common -/

section Alike

variable (h : List.Forall₂ Alike l l')

include h

theorem literalPrefix_eq_of_alike : literalPrefix l = literalPrefix l' := by
  induction h with
  | nil => rfl
  | cons hx _ ih =>
    cases hx with
    | literal text => rw [literalPrefix, literalPrefix, ih]
    | var _ => rfl

theorem literalCount_eq_of_alike : literalCount l = literalCount l' := by
  induction h with
  | nil => rfl
  | cons hx _ ih =>
    cases hx with
    | literal text => rw [literalCount, literalCount, ih]
    | var _ => exact ih

theorem map_rule_eq_of_alike : (vars l).map (·.rule) = (vars l').map (·.rule) := by
  induction h with
  | nil => rfl
  | cons hx _ ih =>
    cases hx with
    | literal text => exact ih
    | var hrule => rw [vars, vars, List.map_cons, List.map_cons, hrule, ih]

theorem length_vars_eq_of_alike : (vars l).length = (vars l').length := by
  simpa using congrArg List.length (map_rule_eq_of_alike h)

theorem flatMap_expression_eq_of_alike : l.flatMap expression = l'.flatMap expression := by
  induction h with
  | nil => rfl
  | cons hx _ ih =>
    rw [List.flatMap_cons, List.flatMap_cons, ih]
    cases hx with
    | literal text => rfl
    | var hrule => rw [expression, expression, hrule]

end Alike

theorem length_groupIndices (index : Nat) (counts : List Nat) :
    (groupIndices index counts).length = counts.length := by
  fun_induction groupIndices index counts with
  | case1 => rfl
  | case2 index count counts ih => rw [List.length_cons, List.length_cons, ih]

end Segment

/-! ## Values without names -/

def Matcher.values? (m : Matcher) (path : Bytes) : Option (List Bytes) := do
  let text ← Utf8.decode? path
  let marks ← m.regex.match? text
  return (m.captures.map (·.2)).map fun index => Utf8.encode (Regex.capture text marks index)

theorem Matcher.match?_eq (m : Matcher) (path : Bytes) :
    m.match? path = (m.values? path).map fun values =>
      .ofList ((m.captures.map (·.1)).zip values) := by
  rw [match?, values?]
  cases Utf8.decode? path with
  | none => rfl
  | some text =>
    simp only [Option.bind_eq_bind, Option.bind_some]
    cases m.regex.match? text with
    | none => rfl
    | some marks => simp [List.zip_map']

/-- Names have no influence on the values. -/
theorem Matcher.values?_congr {m n : Matcher} (hregex : m.regex = n.regex)
    (hindices : m.captures.map (·.2) = n.captures.map (·.2))
    (path : Bytes) : m.values? path = n.values? path := by
  rw [values?, values?, hregex, hindices]

namespace Pattern

variable {p q : Pattern}

/-- The values with which the pattern matches the whole path, if it does, in the order of the
variables. -/
def values? (p : Pattern) (path : Bytes) : Option (List Bytes) :=
  match p.matcher with
  | none => if path = p.literalPrefix then some [] else none
  | some m => m.values? path

namespace Accepted

/-- The captures of a pattern: the names of its variables, and the numbers of the groups before
which those within the rules are counted. -/
theorem exists_captures (h : p.Accepted) {m : Matcher} (hm : p.matcher = some m) :
    ∃ counts,
      (Segment.vars p.segments).map (fun v => (Regex.ofBytes? v.rule).map Regex.groupCount) =
        counts.map some ∧
      Regex.ofBytes? (p.segments.flatMap Segment.expression) = some m.regex ∧
      m.captures.map (·.1) = (Segment.vars p.segments).map (·.name) ∧
      m.captures.map (·.2) = Segment.groupIndices 1 counts := by
  obtain ⟨counts, hvalid, hmatcher⟩ := h.exists_counts
  rw [hm] at hmatcher
  obtain ⟨-, hregex, hcaptures⟩ := makeMatcher_eq_ok_some_iff.1 hmatcher
  have hcounts := Segment.map_groupCount_of_validate hvalid
  have hlen : ((Segment.vars p.segments).map (·.name)).length =
      (Segment.groupIndices 1 counts).length := by
    have := congrArg List.length hcounts
    rw [List.length_map, List.length_map] at this
    rw [List.length_map, Segment.length_groupIndices, this]
  refine ⟨counts, hcounts, hregex, ?_, ?_⟩
  · rw [hcaptures, List.map_fst_zip (Nat.le_of_eq hlen)]
  · rw [hcaptures, List.map_snd_zip (Nat.le_of_eq hlen.symm)]

theorem match?_eq (h : p.Accepted) (path : Bytes) :
    p.match? path = (p.values? path).map fun values =>
    .ofList (((Segment.vars p.segments).map (·.name)).zip values) := by
  rw [match?, values?]
  cases hm : p.matcher with
  | none =>
    dsimp only
    split
    · rw [h.isLiteral_iff.1 (Option.isNone_iff_eq_none.2 hm)]
      simp [Bindings.ofList]
    · rfl
  | some m =>
    obtain ⟨_, -, -, hnames, -⟩ := h.exists_captures hm
    rw [← hnames]
    exact m.match?_eq path

theorem length_of_values? (h : p.Accepted) {path : Bytes} {values : List Bytes}
    (hv : p.values? path = some values) : values.length = (Segment.vars p.segments).length := by
  rw [values?] at hv
  cases hm : p.matcher with
  | none =>
    rw [hm] at hv
    dsimp only at hv
    split at hv
    · rw [h.isLiteral_iff.1 (Option.isNone_iff_eq_none.2 hm), ← Option.some.inj hv]
      rfl
    · exact nomatch hv
  | some m =>
    rw [hm] at hv
    obtain ⟨_, -, -, hnames, -⟩ := h.exists_captures hm
    obtain ⟨_, -, hv⟩ := Option.bind_eq_some_iff.1 hv
    obtain ⟨_, -, hv⟩ := Option.bind_eq_some_iff.1 hv
    have hlen := congrArg List.length hnames
    rw [List.length_map, List.length_map] at hlen
    rw [← Option.some.inj hv, List.length_map, List.length_map, hlen]

theorem map_lookup_of_match? (h : p.Accepted) {path : Bytes} {b : Bindings}
    (hb : p.match? path = some b) :
    ∃ values, p.values? path = some values ∧
      (Segment.vars p.segments).map (fun v => b.lookup v.name) = values.map some := by
  rw [h.match?_eq, Option.map_eq_some_iff] at hb
  obtain ⟨values, hvalues, rfl⟩ := hb
  obtain ⟨counts, hvalid, -⟩ := h.exists_counts
  have hlen : ((Segment.vars p.segments).map (·.name)).length = values.length := by
    rw [List.length_map, h.length_of_values? hvalues]
  obtain ⟨-, -, hlookup⟩ := Bindings.keys_ofList_zip hlen (Segment.nodup_names hvalid).1
  rw [List.map_map] at hlookup
  exact ⟨values, hvalues, hlookup⟩

section Alike

variable (hp : p.Accepted) (hq : q.Accepted)
  (h : List.Forall₂ Segment.Alike p.segments q.segments)

include hp hq h

theorem isLiteral_eq_of_alike : p.isLiteral = q.isLiteral := by
  rw [Bool.eq_iff_iff, hp.isLiteral_iff, hq.isLiteral_iff, ← List.length_eq_zero_iff,
    ← List.length_eq_zero_iff, Segment.length_vars_eq_of_alike h]

/-- The values of variables are told without their names. -/
theorem values?_eq_of_alike (path : Bytes) : p.values? path = q.values? path := by
  have hliteral := hp.isLiteral_eq_of_alike hq h
  rw [values?, values?]
  cases hm : p.matcher with
  | none =>
    rw [isLiteral, isLiteral, hm, eq_comm, Option.isNone_none,
      Option.isNone_iff_eq_none] at hliteral
    rw [hliteral, literalPrefix, literalPrefix, Segment.literalPrefix_eq_of_alike h]
  | some m =>
    rw [isLiteral, isLiteral, hm, eq_comm, Option.isNone_some, Option.isNone_eq_false_iff,
      Option.isSome_iff_exists] at hliteral
    obtain ⟨n, hn⟩ := hliteral
    obtain ⟨counts, hcounts, hregex, -, hindices⟩ := hp.exists_captures hm
    obtain ⟨counts', hcounts', hregex', -, hindices'⟩ := hq.exists_captures hn
    rw [hn]
    refine Matcher.values?_congr ?_ ?_ path
    · rw [Segment.flatMap_expression_eq_of_alike h] at hregex
      exact Option.some.inj (hregex.symm.trans hregex')
    · -- The numbers of groups within the rules are those of the rules alone.
      have hrules := congrArg (List.map fun rule => (Regex.ofBytes? rule).map Regex.groupCount)
        (Segment.map_rule_eq_of_alike h)
      rw [List.map_map, List.map_map] at hrules
      have hmap : counts.map some = counts'.map some := hcounts.symm.trans (hrules.trans hcounts')
      rw [hindices, hindices', List.map_injective_iff.2 (Option.some_injective Nat) hmap]

end Alike

/-- Two patterns have the same shape if and only if they have as many segments, each literal of one
is the same literal of the other, and each variable of one is a variable with the same rule of the
other. Then they have the same leading text, they are equally specific, they match the same paths,
and they bind their variables, one after the other, to the same values. -/
theorem shape_eq_iff_alike (hp : p.Accepted) (hq : q.Accepted) :
    (p.shape = q.shape ↔ List.Forall₂ Segment.Alike p.segments q.segments) ∧
      (p.shape = q.shape → p.literalPrefix = q.literalPrefix ∧ p.specificity = q.specificity ∧
        ∀ path, p.isMatch path = q.isMatch path ∧
          ∀ b c, p.match? path = some b → q.match? path = some c → ∃ values : List Bytes,
            (Segment.vars p.segments).map (fun v => b.lookup v.name) = values.map some ∧
              (Segment.vars q.segments).map (fun v => c.lookup v.name) = values.map some) := by
  refine ⟨Segment.flatMap_shape_eq_iff, fun h => ?_⟩
  have h := Segment.flatMap_shape_eq_iff.1 h
  refine ⟨Segment.literalPrefix_eq_of_alike h, ?_, fun path => ⟨?_, fun b c hb hc => ?_⟩⟩
  · rw [specificity, specificity, variableCount, variableCount, literalCount, literalCount,
      Segment.length_vars_eq_of_alike h, Segment.literalCount_eq_of_alike h]
  · rw [isMatch, isMatch, hp.match?_eq, hq.match?_eq, hp.values?_eq_of_alike hq h,
      Option.isSome_map, Option.isSome_map]
  · obtain ⟨values, hvalues, hlookup⟩ := hp.map_lookup_of_match? hb
    obtain ⟨values', hvalues', hlookup'⟩ := hq.map_lookup_of_match? hc
    rw [hp.values?_eq_of_alike hq h, hvalues'] at hvalues
    obtain rfl := Option.some.inj hvalues
    exact ⟨values', hlookup, hlookup'⟩

/-- The name of the variable and the cuts between literals differ, and texts look like parts of a
shape. -/
theorem shape_eq_iff_alike_renamed :
    ∃ p q, (PatternInput.source (.ofString "V1:a\x7bx:L1:a\x7d")).read = .ok p ∧
      (PatternInput.segments [.literal (.ofString "V1:"), .literal (.ofString "a"),
        .var ⟨.ofString "y", .ofString "L1:a", false⟩]).read = .ok q ∧
      p.segments ≠ q.segments ∧ p.shape = q.shape ∧ p.literalPrefix = q.literalPrefix ∧
      p.isMatch (.ofString "V1:aL1:a") = q.isMatch (.ofString "V1:aL1:a") := by
  have hp : (PatternInput.source (.ofString "V1:a\x7bx:L1:a\x7d")).read.toOption.map (·.segments) =
      some [.literal (.ofString "V1:a"), .var ⟨.ofString "x", .ofString "L1:a", false⟩] := by
    decide +kernel
  have hq : (PatternInput.segments [.literal (.ofString "V1:"), .literal (.ofString "a"),
      .var ⟨.ofString "y", .ofString "L1:a", false⟩]).read.toOption.map (·.segments) =
      some [.literal (.ofString "V1:a"), .var ⟨.ofString "y", .ofString "L1:a", false⟩] := by
    decide +kernel
  obtain ⟨p, hp, hps⟩ := exists_of_toOption_map hp
  obtain ⟨q, hq, hqs⟩ := exists_of_toOption_map hq
  obtain ⟨hiff, hsame⟩ := shape_eq_iff_alike ⟨_, hp⟩ ⟨_, hq⟩
  have hshape : p.shape = q.shape := by
    rw [hiff, hps, hqs]
    exact .cons (.literal _) (.cons (.var rfl) .nil)
  obtain ⟨hleading, -, hmatch⟩ := hsame hshape
  refine ⟨p, q, hp, hq, ?_, hshape, hleading, (hmatch _).1⟩
  rw [hps, hqs]
  decide

end Accepted

end Pattern

end RouteTable
