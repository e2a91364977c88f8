import RouteTable.Proofs.Pattern.Matching

/-!
# The leading text of a pattern

A path that a pattern matches begins with the leading literals of the pattern, as long as no quoted
text goes on from the rule of one variable into that of another. Where one does, the rules are read
as something else than what they are alone, and a bar between them may leave the leading text to one
alternative.

* `Pattern.keepsQuotes`: no quoted text goes on from the rule of one variable into that of another
* `Pattern.Accepted.closesQuotes`: the last variable closes its quoted texts, too
* `Pattern.Accepted.literalPrefix_of_match?`: a path begins with the leading text
-/

namespace RouteTable

namespace Segment

open Regex

/-! ## Quoted texts in the last rule -/

variable {names groups : List Bytes} {segments : List Segment} {counts : List Nat}

/-- The expressions of literals are those of one text. -/
theorem exists_quoted_of_vars_eq_nil
    (hv : validateWith RuleGroups.ofRule? names groups segments = .ok counts)
    (h : vars segments = []) :
    ∃ ds : List Char, segments.flatMap expression = Utf8.encode (ds.flatMap quoteChar) := by
  induction segments with
  | nil => exact ⟨[], rfl⟩
  | cons segment segments ih =>
    cases segment with
    | var v => exact nomatch h
    | literal text =>
      obtain ⟨htext, hrest⟩ := validateWith_literal_eq_ok.1 hv
      obtain ⟨cs, rfl⟩ := Utf8.exists_eq_encode_of_isValid htext
      obtain ⟨ds, hds⟩ := ih hrest h
      refine ⟨cs ++ ds, ?_⟩
      rw [List.flatMap_cons, hds, expression, quote_encode, List.flatMap_append, Utf8.encode_append]

/-- A rule in front of literals closes its quoted texts, as otherwise its group stays open. -/
theorem closesQuotes_of_waiting_eq_nil {v : Variable} {r : Regex}
    (hr : Regex.ofBytes? v.rule = some r) {ds cs : List Char}
    (hcs : Utf8.decode? (expression (var v) ++ Utf8.encode (ds.flatMap quoteChar)) = some cs)
    {ts : List Token} (ht : tokens? cs = some ts) {s u : Reader} (hflags : s.flags = {})
    (hu : ts.foldlM Reader.step s = some u) (hw : u.waiting = []) : v.closesQuotes := by
  by_contra hq
  obtain ⟨es, hes, hparse⟩ := Option.bind_eq_some_iff.1 hr
  rw [Variable.closesQuotes, hes, Option.all_some, Bool.not_eq_true] at hq
  rw [decode?_expression_var hes] at hcs
  obtain ⟨cs', hcs', rfl⟩ := Option.map_eq_some_iff.1 hcs
  obtain rfl := Option.some.inj (hcs'.symm.trans (Utf8.decode?_encode _))
  rw [tokens?_cons, next?_group hparse] at ht
  obtain ⟨ts, hts, rfl⟩ := Option.map_eq_some_iff.1 ht
  obtain ⟨ts₁, hts₁, hread⟩ := Option.bind_eq_some_iff.1 hparse
  obtain ⟨ts', text, text', rest, us, rfl, rfl, hus, hrest⟩ :=
    tokens?_append_unclosed hq hts₁ hts
  -- What follows the quoted text is what is left of the literals, and none of their tokens closes a
  -- group.
  obtain ⟨ds', rfl⟩ : ∃ ds' : List Char, rest = ds'.flatMap quoteChar := by
    rcases hrest with rfl | ⟨before, hcut⟩
    · exact ⟨[], rfl⟩
    · exact cut?_quoted hcut
  have hquoted := tokens?_quoted ds' []
  rw [List.append_nil, hus, tokens?, Option.map_some, List.append_nil] at hquoted
  obtain rfl := Option.some.inj hquoted
  exact foldlM_group_unclosed hread hflags hu hw

/-- If the tokens of a valid row of segments leave no group open, then its last rule closes its
quoted texts when the others do. -/
theorem closesQuotes_of_foldlM
    (hv : validateWith RuleGroups.ofRule? names groups segments = .ok counts)
    (hq : ∀ v ∈ (vars segments).dropLast, v.closesQuotes) {cs : List Char}
    (hcs : Utf8.decode? (segments.flatMap expression) = some cs) {ts : List Token}
    (ht : tokens? cs = some ts) {s u : Reader} (hflags : s.flags = {})
    (hu : ts.foldlM Reader.step s = some u) (hw : u.waiting = []) :
    ∀ v ∈ vars segments, v.closesQuotes := by
  induction segments generalizing names groups counts cs ts s with
  | nil => exact fun v hv => absurd hv List.not_mem_nil
  | cons segment segments ih =>
    rw [List.flatMap_cons] at hcs
    cases segment with
    | literal text =>
      obtain ⟨htext, hrest⟩ := validateWith_literal_eq_ok.1 hv
      obtain ⟨ds, rfl⟩ := Utf8.exists_eq_encode_of_isValid htext
      obtain ⟨cs', ts', hcs', ht', rfl⟩ := tokens?_expression_literal ds hcs ht
      obtain ⟨ps, s₁, hs₁, -, -, hflags₁, -⟩ := foldlM_literals ds hflags
      rw [List.foldlM_append, hs₁] at hu
      exact ih hrest hq hcs' ht' hflags₁ hu
    | var v =>
      obtain ⟨r, groups', counts', -, hr, hrest, rfl⟩ := exists_ofBytes?_of_validateWith hv
      by_cases hlast : vars segments = []
      · obtain ⟨ds, hds⟩ := exists_quoted_of_vars_eq_nil hrest hlast
        rw [hds] at hcs
        have hqv := closesQuotes_of_waiting_eq_nil hr hcs ht hflags hu hw
        rw [vars, hlast]
        exact List.forall_mem_singleton.2 hqv
      · rw [vars, List.dropLast_cons_of_ne_nil hlast] at hq
        obtain ⟨hqv, hq⟩ := List.forall_mem_cons.1 hq
        obtain ⟨cs', ts₁, ts', hcs', ht', hts₁, rfl⟩ := tokens?_expression_var hr hqv hcs ht
        obtain ⟨charParts, hgroup⟩ := foldlM_group hts₁ hflags
        rw [List.foldlM_append, hgroup] at hu
        exact List.forall_mem_cons.2 ⟨hqv, ih hrest hq hcs' ht' (by exact hflags) hu⟩

theorem closesQuotes_of_ofBytes? (hv : validate segments = .ok counts)
    (hq : ∀ v ∈ (vars segments).dropLast, v.closesQuotes) {r : Regex}
    (hr : Regex.ofBytes? (segments.flatMap expression) = some r) :
    ∀ v ∈ vars segments, v.closesQuotes := by
  obtain ⟨cs, ts, u, hcs, hts, hu, hw, -⟩ := ofBytes?_eq_some_iff.1 hr
  exact closesQuotes_of_foldlM hv hq hcs hts rfl hu hw

/-! ## Leading literals -/

/-- What the expressions of segments match begins with the leading literals. -/
theorem Reads.literalPrefix_of_leads {index : Nat} {rs : List Regex}
    (h : Reads index segments counts rs)
    {p q : Point} {ms : List Mark} (hl : Leads (rs.map .expr) p q ms) :
    literalPrefix segments <+: Utf8.encode p.rest := by
  induction h generalizing p ms with
  | nil => exact List.nil_prefix
  | @literal index cs segments counts ps rs hps _ ih =>
    rw [List.map_append] at hl
    obtain ⟨p', ms₁, ms₂, hl₁, hl₂, rfl⟩ := leads_append_iff.1 hl
    obtain ⟨hp, rfl⟩ := hps.eq_of_leads hl₁
    obtain ⟨w, hw⟩ := ih hl₂
    refine ⟨w, ?_⟩
    rw [hp, Utf8.encode_append, ← hw, literalPrefix, List.append_assoc]
  | var => exact List.nil_prefix

end Segment

/-! ## Patterns -/

namespace Pattern

theorem match?_of_isLiteral {p : Pattern} (h : p.isLiteral) (path : Bytes) :
    p.match? path = if path = p.literalPrefix then some [] else none := by
  rw [match?, Option.isNone_iff_eq_none.1 h]

/-- No quoted text goes on from the rule of one variable into that of another: all variables but the
last one close theirs. -/
def keepsQuotes (p : Pattern) : Bool :=
  (Segment.vars p.segments).dropLast.all Variable.closesQuotes

namespace Accepted

variable {p : Pattern} (h : p.Accepted) (hq : p.keepsQuotes)

include h hq

theorem closesQuotes : ∀ v ∈ Segment.vars p.segments, v.closesQuotes := by
  obtain ⟨counts, hc, hm⟩ := h.exists_counts
  cases hp : p.matcher with
  | none =>
    rw [hp, makeMatcher_eq_ok_none_iff] at hm
    rw [hm]
    exact fun v hv => absurd hv List.not_mem_nil
  | some m =>
    rw [hp] at hm
    obtain ⟨-, hr, -⟩ := makeMatcher_eq_ok_some_iff.1 hm
    rw [keepsQuotes, List.all_eq_true] at hq
    exact Segment.closesQuotes_of_ofBytes? hc hq hr

theorem literalPrefix_of_match? {path : Bytes} {b : Bindings} (hb : p.match? path = some b) :
    p.literalPrefix <+: path := by
  by_cases hvars : Segment.vars p.segments = []
  · rw [match?_of_isLiteral (h.isLiteral_iff.2 hvars)] at hb
    by_cases hpath : path = p.literalPrefix
    · exact hpath ▸ List.prefix_rfl
    · rw [if_neg hpath] at hb
      exact nomatch hb
  · obtain ⟨m, counts, rs, hm, -, -, hregex, hreads⟩ :=
      h.exists_reads hvars (h.closesQuotes hq)
    rw [match?, hm] at hb
    obtain ⟨text, htext, hb⟩ := Option.bind_eq_some_iff.1 hb
    obtain ⟨marks, hmarks, -⟩ := Option.bind_eq_some_iff.1 hb
    rw [hregex] at hmarks
    obtain ⟨q, -, hl⟩ := Regex.exists_leads_of_match? hmarks
    rw [Utf8.decode?_eq_some_iff.1 htext]
    exact hreads.literalPrefix_of_leads (Regex.leads_concat_iff.1 hl)

end Accepted

end Pattern

end RouteTable
