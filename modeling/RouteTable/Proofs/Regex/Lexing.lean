import Mathlib
import RouteTable.Regex.Lexer

/-!
# Tokens in front of a parenthesis

The tokens of a text are the same when a closing parenthesis follows it, since no token that ends
within the text goes on with a parenthesis. There are two exceptions: a quoted text that is not
closed takes in the parenthesis, and a bracket expression may find the end of a named class behind
it, which then is no class.

* `Regex.closesQuotes`: all quoted texts are closed
* `Regex.endsNames`: all names of classes that begin in bracket expressions end
* `next?_append`: the first token is the same in front of a parenthesis, unless a name ends behind
  it
* `tokens?_append`: so are all tokens
* `tokens?_append_unclosed`: all but the last one are, if a quoted text is not closed
-/

namespace RouteTable.Regex

variable {s r w : List Char}

/-! ## Parts of tokens -/

theorem cut?_cons_eq_some_iff {marker before after : List Char} {c : Char}
    (hp : ¬ marker.isPrefixOf (c :: s) = true) :
    cut? marker (c :: s) = some (before, after) ↔
      ∃ tail, before = c :: tail ∧ cut? marker s = some (tail, after) := by
  rw [cut?, if_neg hp, Option.map_eq_some_iff]
  constructor
  · intro h'
    obtain ⟨⟨tail, after'⟩, h, he⟩ := h'
    obtain ⟨rfl, rfl⟩ := Prod.mk.inj he
    exact ⟨tail, rfl, h⟩
  · intro h'
    obtain ⟨tail, rfl, h⟩ := h'
    exact ⟨_, h, rfl⟩

theorem length_le_of_cut? {marker before after : List Char}
    (h : cut? marker s = some (before, after)) : marker.length ≤ s.length := by
  induction s generalizing before with
  | nil => exact nomatch h
  | cons c s ih =>
    by_cases hp : marker.isPrefixOf (c :: s) = true
    · exact (List.isPrefixOf_iff_prefix.1 hp).length_le
    · obtain ⟨tail, -, h⟩ := (cut?_cons_eq_some_iff hp).1 h
      exact Nat.le_succ_of_le (ih h)

theorem cut?_append {marker before after : List Char} (h : cut? marker s = some (before, after))
    (t : List Char) : cut? marker (s ++ t) = some (before, after ++ t) := by
  induction s generalizing before with
  | nil => exact nomatch h
  | cons c s ih =>
    have hlen := length_le_of_cut? h
    by_cases hp : marker.isPrefixOf (c :: s) = true
    · rw [cut?, if_pos hp] at h
      obtain ⟨rfl, rfl⟩ := Prod.mk.inj (Option.some.inj h)
      rw [List.isPrefixOf_iff_prefix] at hp
      rw [List.cons_append, cut?, ← List.cons_append, List.drop_append_of_le_length hlen]
      exact if_pos (List.isPrefixOf_iff_prefix.2 (hp.trans (List.prefix_append _ _)))
    · have hp' : ¬ marker.isPrefixOf (c :: (s ++ t)) = true := by
        intro hp'
        refine hp (List.isPrefixOf_iff_prefix.2 ?_)
        rw [← List.cons_append] at hp'
        exact List.prefix_of_prefix_length_le (List.isPrefixOf_iff_prefix.1 hp')
          (List.prefix_append _ _) hlen
      obtain ⟨tail, rfl, hs⟩ := (cut?_cons_eq_some_iff hp).1 h
      exact (cut?_cons_eq_some_iff hp').2 ⟨tail, rfl, ih hs⟩

/-- A mark of two characters that is not in the text is first found behind the parenthesis. -/
theorem cut?_append_paren {a b : Char} (ha : a ≠ ')') (hb : b ≠ ')')
    (h : cut? [a, b] s = none) :
    cut? [a, b] (s ++ ')' :: w) = (cut? [a, b] w).map fun x => (s ++ ')' :: x.1, x.2) := by
  induction s with
  | nil =>
    rw [List.nil_append, cut?, if_neg (by simp [ha])]
    rfl
  | cons c s ih =>
    by_cases hp : [a, b].isPrefixOf (c :: s) = true
    · rw [cut?, if_pos hp] at h
      cases h
    · have hp' : ¬ [a, b].isPrefixOf (c :: (s ++ ')' :: w)) = true := by
        cases s with
        | nil => simp [hb]
        | cons d s => simpa using hp
      rw [cut?, if_neg hp, Option.map_eq_none_iff] at h
      rw [List.cons_append, cut?, if_neg hp', ih h, Option.map_map]
      rfl

/-- The end of the name of a class that is found behind a parenthesis leaves the parenthesis in the
name. -/
theorem paren_mem_of_cut? {before after : List Char} (h : cut? [':', ']'] s = none)
    (h' : cut? [':', ']'] (s ++ ')' :: w) = some (before, after)) : ')' ∈ before := by
  rw [cut?_append_paren (by decide) (by decide) h] at h'
  obtain ⟨x, -, he⟩ := Option.map_eq_some_iff.1 h'
  obtain ⟨rfl, -⟩ := Prod.mk.inj he
  simp

section

variable {p : Char → Bool}

theorem takeWhile_append_paren (hp : p ')' = false) :
    (s ++ ')' :: w).takeWhile p = s.takeWhile p := by
  induction s with
  | nil => simp [hp]
  | cons c s ih =>
    rw [List.cons_append, List.takeWhile_cons, List.takeWhile_cons, ih]

theorem dropWhile_append_paren (hp : p ')' = false) :
    (s ++ ')' :: w).dropWhile p = s.dropWhile p ++ ')' :: w := by
  induction s with
  | nil => simp [hp]
  | cons c s ih =>
    rw [List.cons_append, List.dropWhile_cons, List.dropWhile_cons, ih]
    split <;> rfl

end

theorem number?_append :
    number? (s ++ ')' :: w) = (number? s).map fun x => (x.1, x.2 ++ ')' :: w) := by
  unfold number?
  rw [takeWhile_append_paren (by decide), dropWhile_append_paren (by decide)]
  split <;> rfl

theorem bounds?_append :
    bounds? (s ++ ')' :: w) = (bounds? s).map fun x => (x.1, x.2 ++ ')' :: w) := by
  have hnil : number? (')' :: w) = none := (@number?_append [] w).trans rfl
  fun_cases bounds? s with
  | case1 n r hn => simp [bounds?, number?_append, hn]
  | case2 n r hn => simp [bounds?, number?_append, hn]
  | case3 n r hr hn m r' hm =>
    rw [bounds?, number?_append, hn]
    rcases r with _ | ⟨d, r⟩
    · cases hm
    · have hn' := @number?_append (d :: r) w
      rw [hm] at hn'
      simp_all
  | case4 n r hr hn hm =>
    rw [bounds?, number?_append, hn]
    rcases r with _ | ⟨d, r⟩
    · simp [hnil]
    · have hn' := @number?_append (d :: r) w
      rcases he : number? (d :: r) with _ | ⟨m, _ | ⟨e, r'⟩⟩
      all_goals simp_all
  | case5 h₁ h₂ h₃ =>
    rw [bounds?, number?_append]
    rcases he : number? s with _ | ⟨m, _ | ⟨e, r'⟩⟩
    all_goals simp_all

/-! ## Escapes and classes -/

theorem takeWhile_take_append_paren {p : Char → Bool} (hp : p ')' = false) (n : Nat) :
    ((s ++ ')' :: w).take n).takeWhile p = (s.take n).takeWhile p := by
  induction s generalizing n with
  | nil => cases n <;> simp [hp]
  | cons c s ih =>
    cases n with
    | zero => rfl
    | succ n => rw [List.cons_append, List.take_succ_cons, List.take_succ_cons, List.takeWhile_cons,
        List.takeWhile_cons, ih]

theorem escape?_append {c : Nat} (h : escape? s = some (c, r)) :
    escape? (s ++ ')' :: w) = some (c, r ++ ')' :: w) := by
  revert h
  fun_cases escape? s with
  | case1 r₁ digits r₂ hr hd =>
    intro h
    rw [List.cons_append, List.cons_append, escape?, dropWhile_append_paren (by decide),
      takeWhile_append_paren (by decide), hr]
    simp only [List.cons_append]
    rw [if_pos hd]
    obtain ⟨rfl, rfl⟩ := Prod.mk.inj (Option.some.inj h)
    rfl
  | case13 c' r₁ hx hx' ha hf hn hr ht hv ho more hm =>
    intro h
    have hlen : more.length ≤ r₁.length :=
      (List.takeWhile_prefix _).length_le.trans (List.length_take_le' _ _)
    have hx : c' ≠ 'x' := by
      rintro rfl
      exact absurd ho (by decide)
    rw [List.cons_append, escape?.eq_9 _ _ (by simp [hx]) (by simp [hx]) ha hf hn hr ht hv,
      if_pos ho]
    simp only [takeWhile_take_append_paren (p := isOctalDigit) (by decide)]
    rw [if_neg hm, List.drop_append_of_le_length hlen]
    obtain ⟨rfl, rfl⟩ := Prod.mk.inj (Option.some.inj h)
    rfl
  | case14 c' r₁ hx hx' ha hf hn hr ht hv ho hc =>
    intro h
    have hx : c' ≠ 'x' := by
      rintro rfl
      exact absurd hc (by decide)
    rw [List.cons_append, escape?.eq_9 _ _ (by simp [hx]) (by simp [hx]) ha hf hn hr ht hv,
      if_neg ho, if_pos hc]
    simp_all
  | _ => simp_all [escape?]

theorem category?_append {negated : Bool} {item : CharItem}
    (h : category? negated s = some (item, r)) :
    category? negated (s ++ ')' :: w) = some (item, r ++ ')' :: w) := by
  revert h
  fun_cases category? negated s with
  | case1 => exact nofun
  | case2 r₁ =>
    intro h
    obtain ⟨⟨name, r₂⟩, hc, h⟩ := Option.bind_eq_some_iff.1 h
    obtain ⟨item', hi, h⟩ := Option.bind_eq_some_iff.1 h
    obtain ⟨rfl, rfl⟩ := Prod.mk.inj (Option.some.inj h)
    rw [List.cons_append, category?, cut?_append hc]
    simp [hi]
  | case3 c r₁ hc =>
    intro h
    obtain ⟨item', hi, h⟩ := Option.bind_eq_some_iff.1 h
    obtain ⟨rfl, rfl⟩ := Prod.mk.inj (Option.some.inj h)
    rw [List.cons_append, category?.eq_3 _ _ _ hc]
    simp [hi]

theorem bracketChar?_append {c : Nat} (h : bracketChar? s = some (c, r)) :
    bracketChar? (s ++ ')' :: w) = some (c, r ++ ')' :: w) := by
  revert h
  fun_cases bracketChar? s with
  | case1 => exact nofun
  | case2 r₁ => exact escape?_append
  | case3 c' r₁ hc =>
    intro h
    obtain ⟨rfl, rfl⟩ := Prod.mk.inj (Option.some.inj h)
    rw [List.cons_append, bracketChar?.eq_3 _ _ hc]

/-! ## Bracket expressions -/

/-- A hyphen at the end of the text could go on with the parenthesis. -/
theorem bracketRange?_append {item : CharItem} (h : bracketRange? s = some (item, r))
    (hr : r ≠ ['-']) : bracketRange? (s ++ ')' :: w) = some (item, r ++ ')' :: w) := by
  revert h
  fun_cases bracketRange? s with
  | case1 => exact nofun
  | case2 lo r₁ hs =>
    intro h
    obtain ⟨rfl, rfl⟩ := Prod.mk.inj (Option.some.inj h)
    simp [bracketRange?, bracketChar?_append hs]
  | case3 => exact nofun
  | case4 lo c r₁ hs hc hi r₂ hr₁ hle =>
    intro h
    obtain ⟨rfl, rfl⟩ := Prod.mk.inj (Option.some.inj h)
    have hr₁ := @bracketChar?_append _ _ w _ hr₁
    simp_all [bracketRange?, bracketChar?_append hs]
  | case5 => exact nofun
  | case6 lo r₁ hr₁ hs =>
    intro h
    obtain ⟨rfl, rfl⟩ := Prod.mk.inj (Option.some.inj h)
    rw [bracketRange?, bracketChar?_append hs]
    rcases r₁ with _ | ⟨d, _ | ⟨e, r₁⟩⟩
    · rfl
    · have hd : d ≠ '-' := fun he => hr (by rw [he])
      simp [hd]
    · have hd : d ≠ '-' := fun he => hr₁ e r₁ (by rw [he])
      simp [hd]

theorem ofName?_eq_none {name : List Char} (h : ')' ∈ name) : CharClass.ofName? name = none := by
  fun_cases CharClass.ofName? name with
  | case15 => rfl
  | _ he =>
    have he := congrArg String.toList he
    rw [String.toList_ofList] at he
    rw [he] at h
    exact absurd h (by decide)

theorem classNamed?_eq_none {name : List Char} (h : ')' ∈ name) : classNamed? name = none := by
  fun_cases classNamed? name with
  | case1 name =>
    have h : ')' ∈ name := by simpa using h
    rw [ofName?_eq_none h]
    rfl
  | case2 name hn =>
    rw [ofName?_eq_none h]
    rfl

/-- Whether a name of a class that begins earlier ends in the text. -/
def holdsNameEnd (s : List Char) : Bool :=
  (cut? [':', ']'] s).isSome

def endsName : List Char → Bool
  | '[' :: ':' :: r => holdsNameEnd r
  | _ => true

/-- A part of a bracket expression that a parenthesis follows is the same, unless it begins like a
named class whose name ends behind the parenthesis. There is no such class. -/
theorem bracketItem?_append {item : CharItem} (h : bracketItem? s = some (item, r))
    (hr : r ≠ ['-']) :
    bracketItem? (s ++ ')' :: w) =
      if endsName s || !holdsNameEnd w then some (item, r ++ ')' :: w) else none := by
  revert h
  fun_cases bracketItem? s with
  | case1 r₁ name r₂ hc =>
    intro h
    obtain ⟨cls, hn, h⟩ := Option.map_eq_some_iff.1 h
    obtain ⟨rfl, rfl⟩ := Prod.mk.inj h
    rw [if_pos (by simp [endsName, holdsNameEnd, hc]), List.cons_append, List.cons_append,
      bracketItem?, cut?_append hc]
    simp only [hn, Option.map_some]
  | case2 r₁ hc =>
    intro h
    have hcut := cut?_append_paren (w := w) (by decide) (by decide) hc
    rw [endsName, holdsNameEnd, hc, Option.isSome_none, Bool.false_or, List.cons_append,
      List.cons_append, bracketItem?]
    cases hw : cut? [':', ']'] w with
    | none =>
      rw [hw, Option.map_none] at hcut
      rw [hcut, if_pos (by simp [holdsNameEnd, hw])]
      exact bracketRange?_append h hr
    | some x =>
      rw [hw, Option.map_some] at hcut
      rw [hcut, if_neg (by simp [holdsNameEnd, hw])]
      simp only [classNamed?_eq_none (paren_mem_of_cut? hc hcut), Option.map_none]
  | case3 r₁ =>
    intro h
    rw [List.cons_append, List.cons_append, bracketItem?, if_pos rfl, category?_append h]
    rfl
  | case4 r₁ hp =>
    intro h
    rw [List.cons_append, List.cons_append, bracketItem?, if_neg hp, if_pos rfl, category?_append h]
    rfl
  | case5 c r₁ hp hp' item' hc =>
    intro h
    obtain ⟨rfl, rfl⟩ := Prod.mk.inj (Option.some.inj h)
    rw [List.cons_append, List.cons_append, bracketItem?, if_neg hp, if_neg hp', hc]
    rfl
  | case6 c r₁ hp hp' hc =>
    intro h
    rw [← bracketRange?_append h hr, List.cons_append, List.cons_append, bracketItem?, if_neg hp,
      if_neg hp', hc]
    rfl
  | case7 s hs hs' =>
    intro h
    have hends : endsName s = true := endsName.eq_2 s hs
    rw [hends, Bool.true_or, if_pos rfl, ← bracketRange?_append h hr]
    rcases s with _ | ⟨c, _ | ⟨d, s⟩⟩
    · exact nomatch h
    · have hc : c ≠ '\\' := by
        rintro rfl
        exact nomatch h
      exact bracketItem?.eq_3 _ (by simp) (by simp [hc])
    · refine bracketItem?.eq_3 _ ?_ ?_
      · intro r₁ he
        simp at he
        exact hs s (by rw [he.1, he.2.1])
      · intro c' r₁ he
        simp at he
        exact hs' d s (by rw [he.1])

theorem bracketItems?_of_none (h : bracketItem? s = none) : bracketItems? s = none := by
  rw [bracketItems?]
  split
  · rfl
  · next h' => cases h.symm.trans h'
  · next h' => cases h.symm.trans h'

theorem bracketItems?_of_end {item : CharItem} (h : bracketItem? s = some (item, ']' :: r)) :
    bracketItems? s = some ([item], r) := by
  rw [bracketItems?]
  split
  · next h' => cases h.symm.trans h'
  · next h' =>
    obtain ⟨rfl, he⟩ := Prod.mk.inj (Option.some.inj (h.symm.trans h'))
    rw [(List.cons.inj he).2]
  · next hr h' =>
    obtain ⟨-, rfl⟩ := Prod.mk.inj (Option.some.inj (h.symm.trans h'))
    exact absurd rfl (hr r)

theorem bracketItems?_of_item {item : CharItem} (h : bracketItem? s = some (item, r))
    (hr : ∀ r', r ≠ ']' :: r') : bracketItems? s = (bracketItems? r).map fun x =>
      (item :: x.1, x.2) := by
  rw [bracketItems?]
  split
  · next h' => cases h.symm.trans h'
  · next h' =>
    obtain ⟨-, rfl⟩ := Prod.mk.inj (Option.some.inj (h.symm.trans h'))
    exact absurd rfl (hr _)
  · next h' =>
    obtain ⟨rfl, rfl⟩ := Prod.mk.inj (Option.some.inj (h.symm.trans h'))
    rfl

/-- Whether all names of classes end that begin in a bracket expression, after its opening bracket.
-/
def endsBracketNames (s : List Char) : Bool :=
  match _h : bracketItem? s with
  | none => true
  | some (_, ']' :: _) => endsName s
  | some (_, r) => endsName s && endsBracketNames r
termination_by s.length
decreasing_by exact bracketItem?_length _h

theorem endsBracketNames_of_end {item : CharItem} (h : bracketItem? s = some (item, ']' :: r)) :
    endsBracketNames s = endsName s := by
  rw [endsBracketNames]
  split
  · next h' => cases h.symm.trans h'
  · rfl
  · next hr h' =>
    obtain ⟨-, rfl⟩ := Prod.mk.inj (Option.some.inj (h.symm.trans h'))
    exact absurd rfl (hr r)

theorem endsBracketNames_of_item {item : CharItem} (h : bracketItem? s = some (item, r))
    (hr : ∀ r', r ≠ ']' :: r') : endsBracketNames s = (endsName s && endsBracketNames r) := by
  rw [endsBracketNames]
  split
  · next h' => cases h.symm.trans h'
  · next h' =>
    obtain ⟨-, rfl⟩ := Prod.mk.inj (Option.some.inj (h.symm.trans h'))
    exact absurd rfl (hr _)
  · next h' =>
    obtain ⟨-, rfl⟩ := Prod.mk.inj (Option.some.inj (h.symm.trans h'))
    rfl

/-- A bracket expression that a parenthesis follows has the same parts, unless the name of a class
ends behind the parenthesis. -/
theorem bracketItems?_append {items : List CharItem} (h : bracketItems? s = some (items, r)) :
    bracketItems? (s ++ ')' :: w) =
      if endsBracketNames s || !holdsNameEnd w then some (items, r ++ ')' :: w) else none := by
  fun_induction bracketItems? s generalizing items with
  | case1 => cases h
  | case2 s item r₁ hs =>
    obtain ⟨rfl, rfl⟩ := Prod.mk.inj (Option.some.inj h)
    have hitem := bracketItem?_append (w := w) hs (by simp)
    rw [endsBracketNames_of_end hs]
    split at hitem
    · next hc =>
      rw [if_pos hc, bracketItems?_of_end hitem]
      rfl
    · next hc => rw [if_neg hc, bracketItems?_of_none hitem]
  | case3 s item r₁ hr₁ hs ih =>
    obtain ⟨⟨items', r'⟩, hi, he⟩ := Option.map_eq_some_iff.1 h
    obtain ⟨rfl, rfl⟩ := Prod.mk.inj he
    -- What follows a part is neither empty nor a hyphen alone, since more parts follow.
    have hnil : r₁ ≠ [] := by
      rintro rfl
      cases hi.symm.trans (bracketItems?_of_none rfl)
    have hhyphen : r₁ ≠ ['-'] := by
      rintro rfl
      have hitem : bracketItem? ['-'] = some (.range 45 45, []) := rfl
      have hnone : bracketItems? ['-'] = none := by
        have hne : ∀ r', [] ≠ ']' :: r' := fun _ he => List.cons_ne_nil _ _ he.symm
        rw [bracketItems?_of_item hitem hne, bracketItems?_of_none rfl, Option.map_none]
      cases hi.symm.trans hnone
    have hitem := bracketItem?_append (w := w) hs hhyphen
    rw [endsBracketNames_of_item hs hr₁]
    split at hitem
    · next hc =>
      have hr : ∀ r', r₁ ++ ')' :: w ≠ ']' :: r' := by
        obtain ⟨c, r₁, rfl⟩ := List.exists_cons_of_ne_nil hnil
        intro r' he
        exact hr₁ r₁ (by rw [(List.cons.inj he).1])
      rw [bracketItems?_of_item hitem hr, ih hi]
      cases hn : endsName s <;> cases hw : holdsNameEnd w <;>
        cases he : endsBracketNames r₁ <;> simp_all
    · next hc =>
      rw [bracketItems?_of_none hitem, if_neg]
      simp_all

def endsTokenNames : List Char → Bool
  | '[' :: '^' :: r => endsBracketNames r
  | '[' :: r => endsBracketNames r
  | _ => true

theorem bracket?_append {t : Token} (h : bracket? s = some (t, r)) :
    bracket? (s ++ ')' :: w) =
      if endsTokenNames ('[' :: s) || !holdsNameEnd w then some (t, r ++ ')' :: w) else none := by
  revert h
  fun_cases bracket? s with
  | case1 r₁ =>
    intro h
    obtain ⟨⟨items, r₂⟩, hi, he⟩ := Option.map_eq_some_iff.1 h
    obtain ⟨rfl, rfl⟩ := Prod.mk.inj he
    rw [List.cons_append, bracket?, bracketItems?_append hi, endsTokenNames,
      apply_ite (Option.map _)]
    rfl
  | case2 s hs =>
    intro h
    obtain ⟨⟨items, r₂⟩, hi, he⟩ := Option.map_eq_some_iff.1 h
    obtain ⟨rfl, rfl⟩ := Prod.mk.inj he
    have hne : ∀ r₁, s ++ ')' :: w ≠ '^' :: r₁ := by
      intro r₁ he
      cases s with
      | nil => simp at he
      | cons c s => exact hs s (by simp at he; rw [he.1])
    rw [bracket?.eq_2 _ hne, bracketItems?_append hi, endsTokenNames.eq_2 _ hs,
      apply_ite (Option.map _)]
    rfl

/-! ## Tokens -/

theorem flagGroup?_append {settings : List FlagSetting} {on flagged : Bool} {t : Token}
    (h : flagGroup? settings on flagged s = some (t, r)) :
    flagGroup? settings on flagged (s ++ ')' :: w) = some (t, r ++ ')' :: w) := by
  revert h
  fun_induction flagGroup? settings on flagged s with
  | _ => simp_all [flagGroup?]

theorem group?_append {t : Token} (h : group? s = some (t, r)) :
    group? (s ++ ')' :: w) = some (t, r ++ ')' :: w) := by
  revert h
  fun_cases group? s with
  | case1 r₁ name r₂ hc hn =>
    intro h
    simp_all [group?, cut?_append hc]
  | case2 => exact nofun
  | case3 => exact nofun
  | case4 r₁ hr₁ =>
    intro h
    rw [List.cons_append, group?.eq_2]
    · exact flagGroup?_append h
    · intro r₂ he
      rcases r₁ with _ | ⟨c, _ | ⟨d, r₁⟩⟩
      · simp at he
      · simp at he
      · simp at he
        exact hr₁ r₁ (by rw [he.1, he.2.1])
  | case5 s hs hs' =>
    intro h
    obtain ⟨rfl, rfl⟩ := Prod.mk.inj (Option.some.inj h)
    refine group?.eq_3 _ ?_ ?_
    all_goals
      intro r₁ he
      rcases s with _ | ⟨c, s⟩
      · simp at he
      · simp at he
        exact hs' s (by rw [he.1])

theorem markable_append (least : Nat) (extra : Option Nat) :
    markable least extra (s ++ ')' :: w) =
      ((markable least extra s).1, (markable least extra s).2 ++ ')' :: w) := by
  fun_cases markable least extra s with
  | case1 => rfl
  | case2 s hs =>
    cases s with
    | nil => rfl
    | cons c s => simp_all [markable]

theorem brace?_append {t : Token} (h : brace? s = some (t, r)) :
    brace? (s ++ ')' :: w) = some (t, r ++ ')' :: w) := by
  revert h
  unfold brace?
  rw [bounds?_append]
  rcases bounds? s with _ | ⟨⟨least, _ | most⟩, r₁⟩
  · simp
  all_goals
    simp only [Option.map_some, markable_append]
    split
    · intro h
      rw [Option.some.inj h]
    · exact nofun

def unclosedQuote : List Char → Bool
  | '\\' :: 'Q' :: r => (cut? ['\\', 'E'] r).isNone
  | _ => false

theorem exists_of_unclosedQuote (h : unclosedQuote s) :
    ∃ text, s = '\\' :: 'Q' :: text ∧ cut? ['\\', 'E'] text = none := by
  fun_cases unclosedQuote s with
  | case1 text => exact ⟨text, rfl, by simpa [unclosedQuote] using h⟩
  | case2 s hs => simp_all [unclosedQuote]

theorem backslash?_append {t : Token} (hq : unclosedQuote ('\\' :: s) = false)
    (h : backslash? s = some (t, r)) : backslash? (s ++ ')' :: w) = some (t, r ++ ')' :: w) := by
  revert h
  fun_cases backslash? s with
  | case6 r₁ text r₂ hc =>
    intro h
    obtain ⟨rfl, rfl⟩ := Prod.mk.inj (Option.some.inj h)
    simp [backslash?, cut?_append hc]
  | case7 r₁ hc => simp [unclosedQuote, hc] at hq
  | case8 r₁ | case9 r₁ =>
    intro h
    obtain ⟨⟨item, r₂⟩, hc, he⟩ := Option.map_eq_some_iff.1 h
    obtain ⟨rfl, rfl⟩ := Prod.mk.inj he
    simp [backslash?, category?_append hc]
  | case11 c r₁ _ _ _ _ _ _ _ hc =>
    intro h
    obtain ⟨⟨c', r₂⟩, he, h⟩ := Option.map_eq_some_iff.1 h
    obtain ⟨rfl, rfl⟩ := Prod.mk.inj h
    have he := @escape?_append _ _ w _ he
    simp_all [backslash?]
  | _ => simp_all [backslash?]

/-- The first token of a text that a parenthesis follows is the same, unless the name of a class
ends behind the parenthesis. -/
theorem next?_append {t : Token} (hq : unclosedQuote s = false) (h : Token.next? s = some (t, r)) :
    Token.next? (s ++ ')' :: w) =
      if endsTokenNames s || !holdsNameEnd w then some (t, r ++ ')' :: w) else none := by
  cases s with
  | nil => exact nomatch h
  | cons c s =>
    rw [List.cons_append]
    rw [Token.next?] at h ⊢
    by_cases hc : c = '['
    · subst hc
      exact bracket?_append h
    have hends : endsTokenNames (c :: s) = true := by
      refine endsTokenNames.eq_3 _ ?_ ?_ <;> simp [hc]
    rw [hends, Bool.true_or, if_pos rfl, if_neg hc]
    rw [if_neg hc] at h
    split at h
    · next h₁ => rw [if_pos h₁, group?_append h]
    next h₁ =>
    rw [if_neg h₁]
    split at h
    · next h₂ => rw [if_pos h₂, brace?_append h]
    next h₂ =>
    rw [if_neg h₂]
    split at h
    · next h₃ =>
      subst h₃
      rw [if_pos rfl, backslash?_append hq h]
    next h₃ =>
    rw [if_neg h₃]
    rcases hs : sign? c with _ | t'
    · rcases hr : repeatSign? c with _ | ⟨least, extra⟩
      · simp_all
      · simp only [hs, hr, markable_append] at h ⊢
        rw [Option.some.inj h]
    · simp_all

/-! ## Whole texts -/

def closesQuotes (s : List Char) : Bool :=
  match _h : Token.next? s with
  | none => true
  | some (_, r) => !unclosedQuote s && closesQuotes r
termination_by s.length
decreasing_by exact Token.next?_length _h

def endsNames (s : List Char) : Bool :=
  match _h : Token.next? s with
  | none => true
  | some (_, r) => endsTokenNames s && endsNames r
termination_by s.length
decreasing_by exact Token.next?_length _h

theorem closesQuotes_eq {t : Token} (h : Token.next? s = some (t, r)) :
    closesQuotes s = (!unclosedQuote s && closesQuotes r) := by
  rw [closesQuotes]
  split
  · next hn => exact nomatch h.symm.trans hn
  · next t' r' h' =>
    obtain ⟨rfl, rfl⟩ := Prod.mk.inj (Option.some.inj (h.symm.trans h'))
    rfl

theorem endsNames_eq {t : Token} (h : Token.next? s = some (t, r)) :
    endsNames s = (endsTokenNames s && endsNames r) := by
  rw [endsNames]
  split
  · next hn => exact nomatch h.symm.trans hn
  · next t' r' h' =>
    obtain ⟨rfl, rfl⟩ := Prod.mk.inj (Option.some.inj (h.symm.trans h'))
    rfl

theorem tokens?_cons (c : Char) (s : List Char) :
    tokens? (c :: s) = (Token.next? (c :: s)).bind fun x => (tokens? x.2).map (x.1 :: ·) := by
  rw [tokens?]
  split
  · next h => rw [h, Option.bind_none]
  · next h => rw [h, Option.bind_some]

theorem tokens?_paren (w : List Char) : tokens? (')' :: w) = (tokens? w).map (.close :: ·) := by
  rw [tokens?_cons]
  rfl

/-- The tokens of a text that a parenthesis follows are the same, unless the name of a class ends
behind the parenthesis, and then they are none. -/
theorem tokens?_append {ts : List Token} (hq : closesQuotes s) (h : tokens? s = some ts) :
    tokens? (s ++ ')' :: w) =
      if endsNames s || !holdsNameEnd w then (tokens? w).map (ts ++ .close :: ·) else none := by
  induction s using tokens?.induct generalizing ts with
  | case1 =>
    rw [tokens?] at h
    obtain rfl := Option.some.inj h
    have hends : endsNames [] = true := by
      rw [endsNames]
      rfl
    rw [hends, Bool.true_or, if_pos rfl]
    exact tokens?_paren w
  | case2 c s hn =>
    rw [tokens?_cons, hn] at h
    exact nomatch h
  | case3 c s t r hn ih =>
    rw [closesQuotes_eq hn, Bool.and_eq_true, Bool.not_eq_true'] at hq
    rw [tokens?_cons, hn] at h
    obtain ⟨ts, hts, rfl⟩ := Option.map_eq_some_iff.1 h
    rw [List.cons_append, tokens?_cons, ← List.cons_append, next?_append hq.1 hn, endsNames_eq hn]
    cases hw : holdsNameEnd w <;> cases hc : endsTokenNames (c :: s) <;> cases he : endsNames r <;>
      simp_all [Function.comp_def]

/-- The last token of a text whose last quoted text is not closed takes in the parenthesis that
follows it, and goes on to where a quoted text is closed or to the end. -/
theorem tokens?_append_unclosed {ts us : List Token} (hq : closesQuotes s = false)
    (h : tokens? s = some ts) (hu : tokens? (s ++ ')' :: w) = some us) :
    ∃ ts' text text' rest us', ts = ts' ++ [.quoted text] ∧
      us = ts' ++ .quoted text' :: us' ∧ tokens? rest = some us' ∧
      (rest = [] ∨ ∃ before, cut? ['\\', 'E'] w = some (before, rest)) := by
  induction s using tokens?.induct generalizing ts us with
  | case1 =>
    rw [closesQuotes] at hq
    exact nomatch hq
  | case2 c s hn =>
    rw [tokens?_cons, hn] at h
    exact nomatch h
  | case3 c s t r hn ih =>
    rw [closesQuotes_eq hn, Bool.and_eq_false_iff, Bool.not_eq_false'] at hq
    rw [tokens?_cons, hn] at h
    obtain ⟨ts, hts, rfl⟩ := Option.map_eq_some_iff.1 h
    rw [List.cons_append, tokens?_cons] at hu
    obtain ⟨y, hy, hu⟩ := Option.bind_eq_some_iff.1 hu
    obtain ⟨us, hus, rfl⟩ := Option.map_eq_some_iff.1 hu
    cases hqs : unclosedQuote (c :: s) with
    | false =>
      rw [← List.cons_append, next?_append hqs hn] at hy
      obtain rfl : (t, r ++ ')' :: w) = y := by
        split at hy
        · exact Option.some.inj hy
        · exact nomatch hy
      have hqr : closesQuotes r = false := by simpa [hqs] using hq
      obtain ⟨ts', text, text', rest, us', rfl, rfl, hrest, hcut⟩ := ih hqr hts hus
      exact ⟨t :: ts', text, text', rest, us', rfl, rfl, hrest, hcut⟩
    | true =>
      obtain ⟨text, he, hcut⟩ := exists_of_unclosedQuote hqs
      obtain ⟨rfl, rfl⟩ := List.cons.inj he
      have hnext : Token.next? ('\\' :: 'Q' :: text) = some (.quoted text, []) := by
        show backslash? ('Q' :: text) = _
        simp [backslash?, hcut]
      obtain ⟨rfl, rfl⟩ := Prod.mk.inj (Option.some.inj (hn.symm.trans hnext))
      obtain rfl := Option.some.inj ((tokens?.eq_1).symm.trans hts)
      have hy : backslash? ('Q' :: (text ++ ')' :: w)) = some y := hy
      cases hw : cut? ['\\', 'E'] w with
      | none =>
        simp [backslash?, cut?_append_paren (by decide) (by decide) hcut, hw] at hy
        subst hy
        exact ⟨[], text, _, [], us, rfl, rfl, hus, .inl rfl⟩
      | some x =>
        simp [backslash?, cut?_append_paren (by decide) (by decide) hcut, hw] at hy
        subst hy
        exact ⟨[], text, _, x.2, us, rfl, rfl, hus, .inr ⟨x.1, rfl⟩⟩

end RouteTable.Regex
