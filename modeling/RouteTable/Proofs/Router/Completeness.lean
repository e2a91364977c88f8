import RouteTable.Proofs.Pattern.Prefix
import RouteTable.Proofs.Router.Answers

/-!
# No match is lost

A router matches a path only with the routes whose leading text the path begins with. It loses no
route that matches, if no quoted text goes on from the rule of one variable of the route into that
of another.

* `mem_findAll_ofRanking_iff`: a ranked route is among the answers if it matches
* `Router.mem_findAll_iff`: so is a route of a built router
* `Router.findAll_unclosed`: a route whose quoted text goes on is lost
-/

namespace RouteTable

variable {α : Type}

namespace Router

theorem mem_findAll_ofRanking_iff {l : List (Route α)} (h : Ranking l) (config : IndexConfig)
    (path : Bytes) {f : Found α} (hq : f.route.pattern.keepsQuotes) :
    f ∈ (ofRanking config l).findAll path ↔
      f.route ∈ l ∧ f.route.pattern.match? path = some f.bindings := by
  rw [findAll_ofRanking h, List.mem_append, Option.mem_toList, Option.map_eq_some_iff,
    List.mem_filterMap]
  constructor
  · intro hf
    rcases hf with ⟨x, hx, rfl⟩ | ⟨x, hx, hf⟩
    · obtain ⟨hx, hliteral, hpath⟩ := (find?_isExact_iff h path).1 hx
      exact ⟨hx, by rw [Pattern.match?_of_isLiteral hliteral, if_pos hpath.symm]⟩
    · obtain ⟨rfl, hm⟩ := Route.match?_eq_some_iff.1 hf
      exact ⟨(List.mem_filter.1 hx).1, hm⟩
  · intro hf
    obtain ⟨hx, hm⟩ := hf
    have hleading := (h.accepted f.route hx).literalPrefix_of_match? hq hm
    cases hliteral : f.route.pattern.isLiteral with
    | true =>
      rw [Pattern.match?_of_isLiteral hliteral] at hm
      by_cases hpath : path = f.route.pattern.literalPrefix
      · rw [if_pos hpath] at hm
        refine .inl ⟨f.route, (find?_isExact_iff h path).2 ⟨hx, hliteral, hpath.symm⟩, ?_⟩
        rw [Option.some.inj hm]
      · rw [if_neg hpath] at hm
        exact nomatch hm
    | false =>
      refine .inr ⟨f.route, List.mem_filter.2 ⟨hx, ?_⟩,
        Route.match?_eq_some_iff.2 ⟨rfl, hm⟩⟩
      rw [Route.isCandidate, hliteral]
      exact List.isPrefixOf_iff_prefix.2 hleading

/-- A path that a pattern matches begins with the leading text of the pattern, and so a built router
answers with each of its routes that matches a path, and finds none only if none matches. This holds
of the patterns and routes in which no quoted text goes on from the rule of one variable into that
of another. -/
theorem mem_findAll_iff :
    (∀ p : Pattern, p.Accepted → p.keepsQuotes →
      ∀ path, p.isMatch path → p.literalPrefix <+: path) ∧
    ∀ r : Router α, r.IsBuilt → r.size < 2 ^ 31 → ∀ path,
      (∀ x b, x.pattern.keepsQuotes →
        (⟨x, b⟩ ∈ r.findAll path ↔ x ∈ r.routes ∧ x.pattern.match? path = some b)) ∧
      ∀ buffer, (r.find path buffer).1 = none →
        ∀ x ∈ r.routes, x.pattern.keepsQuotes → x.pattern.isMatch path = false := by
  constructor
  · intro p hp hq path hm
    obtain ⟨b, hb⟩ := Option.isSome_iff_exists.1 hm
    exact hp.literalPrefix_of_match? hq hb
  · intro r hbuilt hlen path
    obtain ⟨config, l, hl, rfl⟩ := hbuilt.exists_ranking hlen
    have hmem : ∀ x b, x.pattern.keepsQuotes →
        (⟨x, b⟩ ∈ (ofRanking config l).findAll path ↔
          x ∈ (ofRanking config l).routes ∧ x.pattern.match? path = some b) := by
      intro x b hq
      rw [mem_findAll_ofRanking_iff hl config path hq, ofRanking, List.mem_toArray]
    refine ⟨hmem, fun buffer hnone x hx hq => ?_⟩
    rw [find_ofRanking hl, List.head?_eq_none_iff] at hnone
    rw [Pattern.isMatch, Option.isSome_eq_false_iff, Option.isNone_iff_eq_none,
      Option.eq_none_iff_forall_ne_some]
    intro b hb
    have hfound := (hmem x b hq).2 ⟨hx, hb⟩
    rw [hnone] at hfound
    exact List.not_mem_nil hfound

open Regex in
/-- Of two routes, the one that matches a path by its second alternative is among the answers. -/
theorem mem_findAll_iff_alternatives :
    let d := ({} : Draft Nat).addAll
      [(.source (Bytes.ofString "/c/\x7by\x7d"), 1), (.source (Bytes.ofString "/\x7bx:a|b\x7d"), 2)]
    ∃ r x b, ofDraft d (some Route.moreSpecific) = .ok r ∧ x.value = 2 ∧
      x.pattern.literalPrefix <+: Bytes.ofString "/b" ∧
      ⟨x, b⟩ ∈ r.findAll (Bytes.ofString "/b") := by
  intro d
  have hfind : (d.routes.find? (·.value == 2)).map (·.pattern.matcher) = some (some
      ⟨.seq (.chars 0 (.single 0x2F false))
        (.group 1 none (.alt (.chars 1 (.single 0x61 false)) (.chars 2 (.single 0x62 false)))),
        [(Bytes.ofString "x", 1)]⟩) := by
    decide +kernel
  have hall : d.routes.all (·.pattern.keepsQuotes) := by decide +kernel
  have hlen : d.routes.length = 2 := by decide +kernel
  obtain ⟨x, hx, hmatcher⟩ := Option.map_eq_some_iff.1 hfind
  have hvalue : x.value = 2 := by simpa using List.find?_some hx
  have hmem := List.mem_of_find?_eq_some hx
  have hmatch : x.pattern.isMatch (Utf8.encode ['/', 'b']) := by
    refine Pattern.isMatch_of_leads hmatcher
      ⟨⟨some 'b', 2, []⟩, [.opened 1 1, .closed 1 2], rfl, leads_seq_iff.2 ?_⟩
    refine .read (by decide) (leads_group_iff.2 ⟨[], leads_alt_iff.2 (.inr ?_), rfl⟩)
    exact .read (by decide) (.nil _)
  obtain ⟨b, hb⟩ := Option.isSome_iff_exists.1 hmatch
  have hperm := d.ranked_perm Route.moreSpecific
  obtain ⟨hleading, hanswers⟩ := @mem_findAll_iff Nat
  have haccepted := (Draft.wellFormed_addAll (Draft.wellFormed_empty {}) _).accepted x hmem
  have hq := List.all_eq_true.1 hall x hmem
  have hsize : (ofRanking d.config (d.ranked Route.moreSpecific)).size < 2 ^ 31 := by
    show (d.ranked Route.moreSpecific).length < 2 ^ 31
    rw [hperm.length_eq, hlen]
    decide
  refine ⟨ofRanking d.config (d.ranked Route.moreSpecific), x, b, rfl, hvalue,
    hleading x.pattern haccepted hq _ hmatch, ?_⟩
  exact ((hanswers _ (.inr ⟨{}, _, _, rfl⟩) hsize _).1 x b hq).2
    ⟨List.mem_toArray.2 (hperm.mem_iff.2 hmem), hb⟩

open Regex in
/-- Where a quoted text goes on into the next rule, a bar there leaves the leading text to one
alternative, and the router loses what matches by the other one. -/
theorem findAll_unclosed :
    let d := ({} : Draft Nat).addAll
      [(.source (Bytes.ofString "/\x7bx:\\Qa\x7d\x7by:[\\\\E)|(b]\x7d"), 1)]
    let path := Bytes.ofString "b]"
    ∃ r x, ofDraft d (some Route.moreSpecific) = .ok r ∧ x ∈ r.routes ∧
      x.pattern.Accepted ∧ x.pattern.isMatch path ∧ ¬ x.pattern.literalPrefix <+: path ∧
      r.findAll path = [] ∧ (r.find path (.empty 0)).1 = none := by
  intro d path
  have hfind : (d.routes.find? (·.value == 1)).map
      (fun x => (x.pattern.matcher, x.pattern.literalPrefix)) =
      some (some ⟨.alt (.seq (.chars 0 (.single 0x2F false)) (.group 1 none (concat
          [.chars 1 (.single 0x61 false), .chars 2 (.single 0x29 false),
            .chars 3 (.single 0x28 false),
            .chars 4 (.single 0x5B false), .chars 5 (.single 0x5C false)])))
        (.group 2 none (.seq (.chars 6 (.single 0x62 false)) (.chars 7 (.single 0x5D false)))),
        [(Bytes.ofString "x", 1), (Bytes.ofString "y", 2)]⟩, Bytes.ofString "/") := by
    decide +kernel
  have hnone : d.routes.all fun x => !x.isExact path && !x.isCandidate path := by decide +kernel
  have hlen : d.routes.length = 1 := by decide +kernel
  obtain ⟨x, hx, hx'⟩ := Option.map_eq_some_iff.1 hfind
  obtain ⟨hmatcher, hleading⟩ := Prod.mk.inj hx'
  have hmem := List.mem_of_find?_eq_some hx
  have hmatch : x.pattern.isMatch (Utf8.encode ['b', ']']) := by
    refine Pattern.isMatch_of_leads hmatcher
      ⟨⟨some ']', 2, []⟩, [.opened 2 0, .closed 2 2], rfl, leads_alt_iff.2 (.inr ?_)⟩
    refine leads_group_iff.2 ⟨[], leads_seq_iff.2 ?_, rfl⟩
    exact .read (by decide) (.read (by decide) (.nil _))
  have hwf : d.WellFormed := Draft.wellFormed_addAll (Draft.wellFormed_empty {}) _
  have hperm := d.ranked_perm Route.moreSpecific
  have hrank : Ranking (d.ranked Route.moreSpecific) := .of_perm hwf hperm (by rw [hlen]; decide)
  have hanswers : (ofRanking d.config (d.ranked Route.moreSpecific)).findAll path = [] := by
    have hnot : ∀ x ∈ d.ranked Route.moreSpecific,
        ¬ x.isExact path ∧ ¬ x.isCandidate path := by
      intro y hy
      simpa using List.all_eq_true.1 hnone y (hperm.mem_iff.1 hy)
    rw [findAll_ofRanking hrank, List.find?_eq_none.2 fun y hy => (hnot y hy).1,
      List.filter_eq_nil_iff.2 fun y hy => (hnot y hy).2]
    rfl
  refine ⟨ofRanking d.config (d.ranked Route.moreSpecific), x, rfl,
    List.mem_toArray.2 (hperm.mem_iff.2 hmem), hwf.accepted x hmem, hmatch, ?_, hanswers, ?_⟩
  · rw [hleading]
    decide
  · rw [find_ofRanking hrank, hanswers]
    rfl

end Router

end RouteTable
