import RouteTable.Pattern.Match
import RouteTable.Proofs.Pattern.Expression
import RouteTable.Proofs.Regex.Captures
import RouteTable.Proofs.Regex.Search

/-!
# What patterns match

A pattern matches the paths that are put together from its literals and from values of its
variables, each of which is matched as a whole by the rule of its variable alone.

* `Variable.Matches`: a text is matched as a whole by the rule of a variable
* `Segment.fill`: the path with given values
* `matches_of_leads`, `exists_leads_of_matches`: within the expression of a pattern a rule matches
  what it matches alone
* `exists_values_of_leads`: what the expression of a pattern matches is filled with the captured
  values
* `Pattern.match?_fill`: the paths that a pattern matches, and their bindings
-/

namespace RouteTable

namespace Variable

def anchorFree (v : Variable) : Bool :=
  (Regex.ofBytes? v.rule).all Regex.anchorFree

def Matches (v : Variable) (value : Bytes) : Prop :=
  ∃ r text, Regex.ofBytes? v.rule = some r ∧ Utf8.decode? value = some text ∧
    (r.match? text).isSome

end Variable

namespace Segment

open Regex

/-- The path that is put together from the literals and the given values of the variables. -/
def fill : List Segment → List Bytes → Bytes
  | literal text :: segments, values => text ++ fill segments values
  | var _ :: segments, value :: values => value ++ fill segments values
  | _, _ => []

/-! ## Literals -/

theorem contains_single {c d : Char} :
    (CharSet.single c.toNat false).contains d.toNat ↔ d = c := by
  rw [← Char.toNat_inj]
  simp [CharSet.single, CharSet.contains, CharItem.containsAny]
  omega

theorem IsLiteral.exists_chars {cs : List Char} {ps : List Regex} (hps : IsLiteral cs ps) :
    ∀ r ∈ ps, ∃ i set, r = .chars i set := by
  induction hps with
  | nil => exact fun r hr => absurd hr List.not_mem_nil
  | cons hr _ ih =>
    obtain ⟨i, rfl⟩ := hr
    exact List.forall_mem_cons.2 ⟨⟨i, _, rfl⟩, ih⟩

theorem IsLiteral.exists_leads {cs : List Char} {ps : List Regex} (hps : IsLiteral cs ps)
    (p : Point) {rest : List Char} (hp : p.rest = cs ++ rest) :
    ∃ q, q.rest = rest ∧ Leads (ps.map .expr) p q [] := by
  induction hps generalizing p with
  | nil => exact ⟨p, hp, .nil p⟩
  | @cons c r cs ps hr _ ih =>
    obtain ⟨i, rfl⟩ := hr
    obtain ⟨before, pos, text⟩ := p
    have hp : text = c :: (cs ++ rest) := hp
    subst hp
    obtain ⟨q, hq, h⟩ := ih ⟨some c, pos + 1, cs ++ rest⟩ rfl
    exact ⟨q, hq, .read (contains_single.2 rfl) h⟩

theorem IsLiteral.eq_of_leads {cs : List Char} {ps : List Regex} (hps : IsLiteral cs ps)
    {p q : Point} {ms : List Mark} (h : Leads (ps.map .expr) p q ms) :
    p.rest = cs ++ q.rest ∧ ms = [] := by
  induction hps generalizing p ms with
  | nil =>
    obtain ⟨rfl, rfl⟩ := leads_nil_iff.1 h
    exact ⟨rfl, rfl⟩
  | @cons c r cs ps hr _ ih =>
    obtain ⟨i, rfl⟩ := hr
    obtain ⟨q', _, _, h₁, h₂, rfl⟩ := leads_cons_iff.1 h
    obtain ⟨d, hp, hd, hq', rfl⟩ := leads_chars_iff.1 h₁
    obtain ⟨hrest, rfl⟩ := ih h₂
    obtain rfl := contains_single.1 hd
    exact ⟨by rw [hp, hrest]; rfl, rfl⟩

/-! ## Variables -/

variable {v : Variable} {r : Regex} {n m : Nat}

theorem only_of_anchorFree (hr : Regex.ofBytes? v.rule = some r) (ha : v.anchorFree) :
    ∀ g ∈ [Goal.expr r], g.Only False fun _ => True := by
  unfold Variable.anchorFree at ha
  rw [hr] at ha
  intro g hg
  obtain rfl := List.mem_singleton.1 hg
  exact anchorFree_iff.1 ha

/-- What a rule without anchors matches within the expression of a pattern it matches alone. -/
theorem matches_of_leads (hr : Regex.ofBytes? v.rule = some r) (ha : v.anchorFree) {p q : Point}
    {ms : List Mark} (h : Leads [.expr (r.renumber n m)] p q ms) {u : List Char}
    (hu : p.rest = u ++ q.rest) : v.Matches (Utf8.encode u) := by
  obtain ⟨ms', h, -⟩ := (@leads_renumber_iff n m p q [.expr r] ms).1 h
  obtain ⟨q', ms'', hq', h⟩ := h.relocate (only_of_anchorFree hr ha) hu (.start u) (s := [])
    (List.append_nil u).symm
  exact ⟨r, u, hr, Utf8.decode?_encode u, isSome_match?_iff.2 ⟨q', ms'', hq', h⟩⟩

/-- What a rule without anchors matches alone it matches within the expression of a pattern. -/
theorem exists_leads_of_matches (hr : Regex.ofBytes? v.rule = some r) (ha : v.anchorFree)
    {value : Bytes} (h : v.Matches value) (n m : Nat) : ∃ u, value = Utf8.encode u ∧
      ∀ (p : Point) (rest : List Char), p.rest = u ++ rest →
        ∃ q ms, q.rest = rest ∧ Leads [.expr (r.renumber n m)] p q ms := by
  obtain ⟨r', u, hr', hu, h⟩ := h
  obtain rfl := Option.some.inj (hr.symm.trans hr')
  obtain ⟨q, ms, hq, h⟩ := isSome_match?_iff.1 h
  refine ⟨u, Utf8.decode?_eq_some_iff.1 hu, fun p rest hp => ?_⟩
  obtain ⟨q', ms', hq', h'⟩ := h.relocate (only_of_anchorFree hr ha) (u := u)
    (by rw [hq]; exact (List.append_nil u).symm) p hp
  exact ⟨q', _, hq', h'.renumber⟩

/-! ## Rows of segments -/

variable {index : Nat} {segments : List Segment} {counts : List Nat} {rs : List Regex}

theorem le_of_mem_groupIndices {i : Nat} (h : i ∈ groupIndices index counts) : index ≤ i := by
  fun_induction groupIndices index counts with
  | case1 => exact absurd h List.not_mem_nil
  | case2 index count counts ih =>
    rcases List.mem_cons.1 h with rfl | h
    · exact Nat.le_refl _
    · have := ih h
      omega

theorem only_renumber_of_ofBytes? (hr : Regex.ofBytes? v.rule = some r) :
    (r.renumber index m).Only True fun i => index < i ∧ i ≤ index + r.groupCount := by
  obtain ⟨cs, -, hparse⟩ := Option.bind_eq_some_iff.1 hr
  obtain ⟨ts, -, hread⟩ := Option.bind_eq_some_iff.1 hparse
  refine (only_renumber index m).2 ((only_of_ofTokens? hread).mono fun i hi => ?_)
  have := hi.1
  have := hi.2
  omega

theorem Reads.only (h : Reads index segments counts rs) :
    ∀ r ∈ rs, r.Only True (index ≤ ·) := by
  induction h with
  | nil => exact fun r hr => absurd hr List.not_mem_nil
  | @literal index cs segments counts ps rs hps _ ih =>
    refine List.forall_mem_append.2 ⟨fun r hr => ?_, ih⟩
    obtain ⟨i, set, rfl⟩ := hps.exists_chars r hr
    trivial
  | @var index v r m segments counts rs hr _ ih =>
    refine List.forall_mem_cons.2 ⟨⟨Nat.le_refl _, ?_⟩,
      fun r' hr' => (ih r' hr').mono fun i hi => ?_⟩
    · exact (only_renumber_of_ofBytes? hr).mono fun i hi => Nat.le_of_lt hi.1
    · have hi : index + 1 + r.groupCount ≤ i := hi
      omega

theorem index_of_leads_renumber (hr : Regex.ofBytes? v.rule = some r) {p q : Point} {ms : List Mark}
    (h : Leads [.expr (r.renumber index m)] p q ms) :
    ∀ mark ∈ ms, index < mark.index ∧ mark.index ≤ index + r.groupCount := by
  have hgoal : ∀ g ∈ [Goal.expr (r.renumber index m)],
      g.Only True fun i => index < i ∧ i ≤ index + r.groupCount := by
    intro g hg
    obtain rfl := List.mem_singleton.1 hg
    exact only_renumber_of_ofBytes? hr
  exact h.only_index hgoal

theorem Reads.le_index_of_leads (h : Reads index segments counts rs) {p q : Point} {ms : List Mark}
    (hl : Leads (rs.map .expr) p q ms) : ∀ mark ∈ ms, index ≤ mark.index := by
  have hgoals : ∀ g ∈ rs.map Goal.expr, g.Only True (index ≤ ·) := by
    intro g hg
    obtain ⟨r, hr, rfl⟩ := List.mem_map.1 hg
    exact h.only r hr
  exact hl.only_index hgoals

/-- What the expressions of segments match is filled with the values that the groups captured. -/
theorem exists_values_of_leads (h : Reads index segments counts rs)
    (ha : ∀ v ∈ vars segments, v.anchorFree)
    {p q : Point} {ms : List Mark} (hl : Leads (rs.map .expr) p q ms) :
    ∃ us : List (List Char),
      List.Forall₂ Variable.Matches (vars segments) (us.map Utf8.encode) ∧
      Utf8.encode p.rest = fill segments (us.map Utf8.encode) ++ Utf8.encode q.rest ∧
      ∀ text, text.drop p.pos = p.rest →
        (groupIndices index counts).map (capture text ms.reverse) = us := by
  induction h generalizing p ms with
  | nil =>
    obtain ⟨rfl, rfl⟩ := leads_nil_iff.1 hl
    exact ⟨[], .nil, rfl, fun _ _ => rfl⟩
  | @literal index cs segments counts ps rs hps _ ih =>
    rw [List.map_append] at hl
    obtain ⟨p', ms₁, ms₂, hl₁, hl₂, rfl⟩ := leads_append_iff.1 hl
    obtain ⟨hp, rfl⟩ := hps.eq_of_leads hl₁
    obtain ⟨us, hus, hfill, hcapture⟩ := ih ha hl₂
    refine ⟨us, hus, ?_, fun text ht => hcapture text (hl₁.drop_eq ht)⟩
    rw [hp, Utf8.encode_append, hfill, fill, List.append_assoc]
  | @var index v r m segments counts rs hr hreads ih =>
    obtain ⟨p', ms₁, ms₂, hl₁, hl₂, rfl⟩ := leads_cons_iff.1 hl
    obtain ⟨inner, hinner, rfl⟩ := leads_group_iff.1 hl₁
    obtain ⟨u, hu, hpos⟩ := hinner.exists_read
    obtain ⟨hav, ha⟩ := List.forall_mem_cons.1 ha
    obtain ⟨us, hus, hfill, hcapture⟩ := ih ha hl₂
    refine ⟨u :: us, .cons (matches_of_leads hr hav hinner hu) hus, ?_, fun text ht => ?_⟩
    · rw [hu, Utf8.encode_append, hfill, List.map_cons, fill, List.append_assoc]
    · -- The numbers of the groups within the rule lie between those of this variable and the
      -- next one.
      have hown := index_of_leads_renumber hr hinner
      have hlater := hreads.le_index_of_leads hl₂
      rw [groupIndices, List.map_cons, ← hcapture text (hl₁.drop_eq ht), List.reverse_append]
      refine congrArg₂ List.cons ?_ (List.map_congr_left fun i hi => ?_)
      · have hne : ∀ mark ∈ ms₂.reverse, mark.index ≠ index := by
          intro mark hm
          have := hlater mark (List.mem_reverse.1 hm)
          omega
        have hne' : ∀ mark ∈ inner, mark.index ≠ index := by
          intro mark hm
          have := hown mark hm
          omega
        rw [capture_append_left hne, capture_group hne', ht, hu, hpos, Nat.add_sub_cancel_left,
          List.take_left]
      · have hi := le_of_mem_groupIndices hi
        apply capture_append_right
        intro mark hm
        have hle : mark.index ≤ index + r.groupCount := by
          rcases List.mem_append.1 (List.mem_reverse.1 hm) with hm | hm
          · rcases List.mem_cons.1 hm with rfl | hm
            · exact Nat.le_add_right _ _
            · exact (hown mark hm).2
          · rw [List.mem_singleton.1 hm]
            exact Nat.le_add_right _ _
        omega

/-- The expressions of segments match what is filled with values. -/
theorem exists_leads_of_fill (h : Reads index segments counts rs)
    (ha : ∀ v ∈ vars segments, v.anchorFree)
    {values : List Bytes} (hv : List.Forall₂ Variable.Matches (vars segments) values) :
    ∃ cs, fill segments values = Utf8.encode cs ∧
      ∀ (p : Point) (rest : List Char), p.rest = cs ++ rest →
        ∃ q ms, q.rest = rest ∧ Leads (rs.map .expr) p q ms := by
  induction h generalizing values with
  | nil =>
    cases hv with
    | nil => exact ⟨[], rfl, fun p rest hp => ⟨p, [], hp, .nil p⟩⟩
  | @literal index cs segments counts ps rs hps _ ih =>
    obtain ⟨cs', hfill, hl⟩ := ih ha hv
    refine ⟨cs ++ cs', by rw [fill, hfill, Utf8.encode_append], fun p rest hp => ?_⟩
    rw [List.append_assoc] at hp
    obtain ⟨p', hp', h₁⟩ := hps.exists_leads p hp
    obtain ⟨q, ms, hq, h₂⟩ := hl p' rest hp'
    refine ⟨q, [] ++ ms, hq, ?_⟩
    rw [List.map_append]
    exact h₁.append h₂
  | @var index v r m segments counts rs hr _ ih =>
    obtain ⟨hav, ha⟩ := List.forall_mem_cons.1 ha
    cases hv with
    | @cons _ value _ values hvalue hv =>
      obtain ⟨u, rfl, hu⟩ := exists_leads_of_matches hr hav hvalue index m
      obtain ⟨cs, hfill, hl⟩ := ih ha hv
      refine ⟨u ++ cs, by rw [fill, hfill, Utf8.encode_append], fun p rest hp => ?_⟩
      rw [List.append_assoc] at hp
      obtain ⟨p', inner, hp', hinner⟩ := hu p _ hp
      obtain ⟨q, ms, hq, h₂⟩ := hl p' rest hp'
      exact ⟨q, _, hq, leads_cons_iff.2 ⟨p', _, ms, leads_group_iff.2 ⟨inner, hinner, rfl⟩,
        h₂, rfl⟩⟩

end Segment

/-! ## Bindings -/

namespace Bindings

variable {names values : List Bytes}

theorem perm_ofList (l : List (Bytes × Bytes)) : (ofList l).Perm l :=
  List.mergeSort_perm l _

theorem map_lookup_eq {b : Bindings} (hlen : names.length = values.length)
    (h : ∀ x ∈ names.zip values, b.lookup x.1 = some x.2) :
    names.map (fun name => b.lookup name) = values.map some := by
  induction names generalizing values with
  | nil =>
    obtain rfl := List.eq_nil_of_length_eq_zero hlen.symm
    rfl
  | cons name names ih =>
    cases values with
    | nil => exact nomatch hlen
    | cons value values =>
      obtain ⟨hx, h⟩ := List.forall_mem_cons.1 h
      rw [List.map_cons, List.map_cons, hx, ih (Nat.succ.inj hlen) h]

/-- The bindings of different names to as many values have these names, and give these values. -/
theorem keys_ofList_zip (hlen : names.length = values.length) (hn : names.Nodup) :
    ((ofList (names.zip values)).map (·.1)).Perm names ∧
      ((ofList (names.zip values)).map (·.1)).Nodup ∧
      names.map (fun name => (ofList (names.zip values)).lookup name) = values.map some := by
  have hperm := perm_ofList (names.zip values)
  have hkeys : ((ofList (names.zip values)).map (·.1)).Perm names := by
    have := hperm.map (·.1)
    rwa [List.map_fst_zip (Nat.le_of_eq hlen)] at this
  refine ⟨hkeys, hkeys.nodup_iff.2 hn, map_lookup_eq hlen fun x hx => ?_⟩
  exact lookup_eq_some_of_mem (hkeys.nodup_iff.2 hn) (hperm.mem_iff.2 hx)

end Bindings

/-! ## Patterns -/

/-- The path is cut into the literals and one value for each variable, which its rule matches as a
whole. -/
structure Segment.Cut (segments : List Segment) (values : List Bytes) (path : Bytes) : Prop where
  matched : List.Forall₂ Variable.Matches (vars segments) values
  filled : fill segments values = path

namespace Pattern

variable {p : Pattern}

theorem exists_cut_of_match? (h : p.Accepted) (hvars : Segment.vars p.segments ≠ [])
    (hq : ∀ v ∈ Segment.vars p.segments, v.closesQuotes)
    (ha : ∀ v ∈ Segment.vars p.segments, v.anchorFree)
    {path : Bytes} {b : Bindings} (hb : p.match? path = some b) :
    ∃ values, b = .ofList (((Segment.vars p.segments).map (·.name)).zip values) ∧
      Segment.Cut p.segments values path := by
  obtain ⟨m, counts, rs, hm, -, hcaptures, hregex, hreads⟩ := h.exists_reads hvars hq
  rw [Pattern.match?, hm] at hb
  obtain ⟨text, htext, hb⟩ := Option.bind_eq_some_iff.1 hb
  obtain ⟨marks, hmarks, hb⟩ := Option.bind_eq_some_iff.1 hb
  obtain rfl := Option.some.inj hb
  rw [hregex] at hmarks
  obtain ⟨q, hend, hl⟩ := Regex.exists_leads_of_match? hmarks
  rw [Regex.leads_concat_iff] at hl
  obtain ⟨us, hus, hfill, hcapture⟩ := Segment.exists_values_of_leads hreads ha hl
  refine ⟨us.map Utf8.encode, ?_, hus, ?_⟩
  · rw [hcaptures, ← hcapture text rfl, List.reverse_reverse, List.map_map, List.zip_map_right]
    rfl
  · have hnil : Utf8.encode [] = [] := rfl
    rw [hend, hnil, List.append_nil] at hfill
    rw [Utf8.decode?_eq_some_iff.1 htext]
    exact hfill.symm

theorem isMatch_of_leads {m : Matcher} (hm : p.matcher = some m) {text : List Char}
    (h : ∃ q ms, q.rest = [] ∧ Regex.Leads [.expr m.regex] (.start text) q ms) :
    p.isMatch (Utf8.encode text) := by
  obtain ⟨marks, hmarks⟩ := Option.isSome_iff_exists.1 (Regex.isSome_match?_iff.2 h)
  rw [isMatch, Pattern.match?, hm]
  simp [Matcher.match?, Utf8.decode?_encode, hmarks]

theorem isSome_match?_of_cut (h : p.Accepted) (hvars : Segment.vars p.segments ≠ [])
    (hq : ∀ v ∈ Segment.vars p.segments, v.closesQuotes)
    (ha : ∀ v ∈ Segment.vars p.segments, v.anchorFree)
    {path : Bytes} {values : List Bytes} (hc : Segment.Cut p.segments values path) :
    (p.match? path).isSome := by
  obtain ⟨m, counts, rs, hm, -, -, hregex, hreads⟩ := h.exists_reads hvars hq
  obtain ⟨cs, hcs, hl⟩ := Segment.exists_leads_of_fill hreads ha hc.matched
  obtain ⟨q, ms, hq, hl⟩ := hl (.start cs) [] (List.append_nil cs).symm
  rw [← hc.filled, hcs]
  exact isMatch_of_leads hm ⟨q, ms, hq, hregex ▸ Regex.leads_concat_iff.2 hl⟩

/-- A pattern with variables matches exactly the paths that can be cut, in the order of its
segments, into its literals and one value for each variable that the rule of the variable matches as
a whole, given that rules close their quoted texts and have no anchors. The bindings have the names
of the variables, and give such values. -/
theorem match?_fill (h : p.Accepted) (hvars : Segment.vars p.segments ≠ [])
    (hq : ∀ v ∈ Segment.vars p.segments, v.closesQuotes)
    (ha : ∀ v ∈ Segment.vars p.segments, v.anchorFree)
    (path : Bytes) :
    ((p.match? path).isSome ↔ ∃ values, Segment.Cut p.segments values path) ∧
      ∀ b, p.match? path = some b →
        (b.map (·.1)).Perm ((Segment.vars p.segments).map (·.name)) ∧ (b.map (·.1)).Nodup ∧
          ∃ values, (Segment.vars p.segments).map (fun v => b.lookup v.name) = values.map some ∧
            Segment.Cut p.segments values path := by
  refine ⟨⟨fun hs => ?_, fun ⟨values, hc⟩ => isSome_match?_of_cut h hvars hq ha hc⟩,
    fun b hb => ?_⟩
  · obtain ⟨b, hb⟩ := Option.isSome_iff_exists.1 hs
    obtain ⟨values, -, hc⟩ := exists_cut_of_match? h hvars hq ha hb
    exact ⟨values, hc⟩
  · obtain ⟨values, rfl, hc⟩ := exists_cut_of_match? h hvars hq ha hb
    obtain ⟨counts, hv, -⟩ := h.exists_counts
    have hlen : ((Segment.vars p.segments).map (·.name)).length = values.length := by
      rw [List.length_map]
      exact hc.matched.length_eq
    obtain ⟨hperm, hnodup, hlookup⟩ := Bindings.keys_ofList_zip hlen (Segment.nodup_names hv).1
    rw [List.map_map] at hlookup
    exact ⟨hperm, hnodup, values, hlookup, hc⟩

open Regex in
/-- The groups of the rules do not get into each other's way, and a flag ends with its rule. -/
theorem match?_fill_groups :
    ∃ p, (PatternInput.source (.ofString "/\x7ba:(x|y)\x7d\x7bb:(?i)z\x7d")).read = .ok p ∧
      Segment.vars p.segments ≠ [] ∧ (∀ v ∈ Segment.vars p.segments, v.closesQuotes) ∧
      (∀ v ∈ Segment.vars p.segments, v.anchorFree) ∧
      (p.match? (.ofString "/yZ")).isSome := by
  have hsegments :
      (PatternInput.source (.ofString "/\x7ba:(x|y)\x7d\x7bb:(?i)z\x7d")).read.toOption.map
      (·.segments) = some [.literal (.ofString "/"),
        .var ⟨.ofString "a", .ofString "(x|y)", false⟩,
        .var ⟨.ofString "b", .ofString "(?i)z", false⟩] := by
    decide +kernel
  obtain ⟨p, hp, hsegments⟩ := Option.map_eq_some_iff.1 hsegments
  have hread : (PatternInput.source (.ofString "/\x7ba:(x|y)\x7d\x7bb:(?i)z\x7d")).read =
      .ok p := by
    generalize PatternInput.read _ = x at hp
    cases x with
    | error e => exact nomatch hp
    | ok q => rw [Option.some.inj hp]
  have hvars : Segment.vars p.segments ≠ [] := by
    rw [hsegments]
    exact List.cons_ne_nil _ _
  have hq : ∀ v ∈ Segment.vars p.segments, v.closesQuotes := by
    rw [hsegments]
    decide +kernel
  have ha : ∀ v ∈ Segment.vars p.segments, v.anchorFree := by
    rw [hsegments]
    decide +kernel
  refine ⟨p, hread, hvars, hq, ha, (match?_fill ⟨_, hread⟩ hvars hq ha _).1.2
    ⟨[.ofString "y", .ofString "Z"], ?_, ?_⟩⟩
  · rw [hsegments]
    refine .cons ?_ (.cons ?_ .nil)
    · refine ⟨.group 1 none
          (.alt (.chars 0 (.single 0x78 false)) (.chars 1 (.single 0x79 false))), ['y'],
        by decide +kernel, by decide +kernel, isSome_match?_iff.2 ?_⟩
      refine ⟨⟨some 'y', 1, []⟩, [.opened 1 0, .closed 1 1], rfl,
        leads_group_iff.2 ⟨[], ?_, rfl⟩⟩
      have hs : { goals := [.expr (.chars 1 (.single 0x79 false))] } ∈
          Goal.steps (Point.start ['y']).place
            (.expr (.alt (.chars 0 (.single 0x78 false)) (.chars 1 (.single 0x79 false)))) :=
        List.mem_cons_of_mem _ List.mem_cons_self
      exact .step hs (leads_chars_iff.2 ⟨'y', rfl, by decide, rfl, rfl⟩)
    · refine ⟨.chars 0 (.single 0x7A true), ['Z'], by decide +kernel, by decide +kernel,
        isSome_match?_iff.2 ?_⟩
      exact ⟨⟨some 'Z', 1, []⟩, [], rfl,
        leads_chars_iff.2 ⟨'Z', rfl, by decide +kernel, rfl, rfl⟩⟩
  · rw [hsegments]
    decide +kernel

end Pattern

end RouteTable
