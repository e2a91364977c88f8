import RouteTable.Regex.Parser
import RouteTable.Proofs.Regex.Renumber

/-!
# Expressions within groups

The tokens of an expression that stand within a group are read as they are alone, but for the
numbers of groups and characters.

* `Reader.within`: a reader within the groups of another one
* `step_within`, `foldlM_within`: it takes the same steps
* `Reader.Numbered`: the groups that were opened are numbered from one on
* `foldlM_group`: an expression between parentheses is read into one group
* `foldlM_group_unclosed`: a group whose end is quoted stays open
-/

namespace RouteTable.Regex

/-! ## Readers within groups -/

section Within

variable (n m : Nat)

def Level.renumber (l : Level) : Level where
  branches := l.branches.map (Regex.renumber n m)
  items := l.items.map (Regex.renumber n m)

def Waiting.renumber (w : Waiting) : Waiting where
  level := w.level.renumber n m
  flags := w.flags
  capture := w.capture.map fun c => (c.1 + n, c.2)

/-- The reader within the groups `ws`, in front of which `n` groups were opened and `m` parts that
match a character were read. -/
def Reader.within (ws : List Waiting) (s : Reader) : Reader where
  level := s.level.renumber n m
  flags := s.flags
  waiting := s.waiting.map (Waiting.renumber n m) ++ ws
  captures := s.captures + n
  charParts := s.charParts + m
  repeated := s.repeated

theorem Level.branch_renumber (l : Level) : (l.renumber n m).branch = l.branch.renumber n m := by
  unfold branch
  rw [renumber_concat, List.map_reverse]
  rfl

theorem Level.bar_renumber (l : Level) : (l.renumber n m).bar = l.bar.renumber n m := by
  unfold bar
  rw [branch_renumber]
  rfl

theorem Level.toRegex_renumber (l : Level) : (l.renumber n m).toRegex = l.toRegex.renumber n m := by
  unfold toRegex
  rw [renumber_choice, branch_renumber, List.map_reverse]
  rfl

theorem Waiting.part_renumber (w : Waiting) (r : Regex) :
    (w.renumber n m).part (r.renumber n m) = (w.part r).renumber n m := by
  obtain ⟨level, flags, _ | ⟨index, name⟩⟩ := w <;> rfl

variable {n m : Nat} {ws : List Waiting} {s u : Reader}

theorem Reader.pushSet_within (set : CharSet) :
    (s.within n m ws).pushSet set = (s.pushSet set).within n m ws := by
  simp [pushSet, push, within, Level.push, Level.renumber, Regex.renumber, Nat.add_right_comm]

theorem Reader.pushLiteral_within (c : Nat) :
    (s.within n m ws).pushLiteral c = (s.pushLiteral c).within n m ws :=
  pushSet_within _

theorem Reader.foldl_pushLiteral_within (text : List Char) :
    text.foldl (fun s c => s.pushLiteral c.toNat) (s.within n m ws) =
      (text.foldl (fun s c => s.pushLiteral c.toNat) s).within n m ws := by
  induction text generalizing s with
  | nil => rfl
  | cons c text ih => rw [List.foldl_cons, List.foldl_cons, pushLiteral_within, ih]

theorem Reader.leave?_within (h : s.leave? = some u) :
    (s.within n m ws).leave? = some (u.within n m ws) := by
  obtain ⟨level, flags, waiting, captures, charParts, repeated⟩ := s
  cases waiting with
  | nil => exact nomatch h
  | cons w waiting =>
    obtain rfl := Option.some.inj h
    simp only [leave?, within, List.map_cons, List.cons_append, Level.toRegex_renumber,
      Waiting.part_renumber]
    rfl

theorem Reader.repeat?_within {least : Nat} {extra : Option Nat} {marked : Bool}
    (h : s.repeat? least extra marked = some u) :
    (s.within n m ws).repeat? least extra marked = some (u.within n m ws) := by
  obtain ⟨⟨branches, items⟩, flags, waiting, captures, charParts, repeated⟩ := s
  cases items with
  | nil => exact nomatch h
  | cons r items =>
    simp only [repeat?, within, Level.renumber, List.map_cons] at h ⊢
    have hr : times least extra (marked == flags.swapGreed) (r.renumber n m) =
        (times least extra (marked == flags.swapGreed) r).renumber n m := rfl
    rw [hr, repeatsWithin_renumber]
    split at h
    · next hc =>
      obtain rfl := Option.some.inj h
      rw [if_pos hc]
      rfl
    · exact nomatch h

/-- A token does the same within other groups. -/
theorem Reader.step_within {t : Token} (h : s.step t = some u) :
    (s.within n m ws).step t = some (u.within n m ws) := by
  cases t with
  | close => exact leave?_within h
  | repetition least extra marked => exact repeat?_within h
  | literal c =>
    obtain rfl := Option.some.inj h
    exact congrArg some (pushLiteral_within c)
  | dot | set =>
    obtain rfl := Option.some.inj h
    exact congrArg some (pushSet_within _)
  | quoted text =>
    obtain rfl := Option.some.inj h
    exact congrArg some (@foldl_pushLiteral_within _ _ _ { s with repeated := false } text)
  | openCapture name =>
    obtain rfl := Option.some.inj h
    simp [step, enter, within, Waiting.renumber, Level.renumber, Nat.add_right_comm]
  | bar =>
    obtain rfl := Option.some.inj h
    simp only [step, within, Level.bar_renumber]
  | _ =>
    obtain rfl := Option.some.inj h
    rfl

theorem Reader.foldlM_within {ts : List Token} (h : ts.foldlM step s = some u) :
    ts.foldlM step (s.within n m ws) = some (u.within n m ws) := by
  induction ts generalizing s with
  | nil =>
    obtain rfl := Option.some.inj h
    rfl
  | cons t ts ih =>
    rw [List.foldlM_cons] at h ⊢
    obtain ⟨v, hv, h⟩ := Option.bind_eq_some_iff.1 h
    exact Option.bind_eq_some_iff.2 ⟨_, step_within hv, ih h⟩

end Within

/-! ## Numbers -/

theorem groupCount_concat (rs : List Regex) : (concat rs).groupCount = (rs.map groupCount).sum := by
  fun_induction concat rs with
  | case1 => rfl
  | case2 r => rfl
  | case3 r rs _ ih => rw [groupCount, ih, List.map_cons, List.sum_cons]

theorem groupCount_choice (rs : List Regex) : (choice rs).groupCount = (rs.map groupCount).sum := by
  fun_induction choice rs with
  | case1 => rfl
  | case2 r => rfl
  | case3 r rs _ ih => rw [groupCount, ih, List.map_cons, List.sum_cons]

section

variable {anchors : Prop} {groups groups' : Nat → Prop}

theorem only_concat {rs : List Regex} (h : ∀ r ∈ rs, r.Only anchors groups) :
    (concat rs).Only anchors groups := by
  fun_induction concat rs with
  | case1 => trivial
  | case2 r => exact h r List.mem_cons_self
  | case3 r rs _ ih =>
    obtain ⟨hr, hrs⟩ := List.forall_mem_cons.1 h
    exact ⟨hr, ih hrs⟩

theorem only_choice {rs : List Regex} (h : ∀ r ∈ rs, r.Only anchors groups) :
    (choice rs).Only anchors groups := by
  fun_induction choice rs with
  | case1 => trivial
  | case2 r => exact h r List.mem_cons_self
  | case3 r rs _ ih =>
    obtain ⟨hr, hrs⟩ := List.forall_mem_cons.1 h
    exact ⟨hr, ih hrs⟩

theorem Only.mono {r : Regex} (h : r.Only anchors groups) (hsub : ∀ i, groups i → groups' i) :
    r.Only anchors groups' := by
  induction r with
  | seq r₁ r₂ ih₁ ih₂ | alt r₁ r₂ ih₁ ih₂ => exact ⟨ih₁ h.1, ih₂ h.2⟩
  | times least extra greedy r ih => exact ih h
  | group index name r ih => exact ⟨hsub index h.1, ih h.2⟩
  | _ => exact h

end

def AmongFirst (n index : Nat) : Prop :=
  0 < index ∧ index ≤ n

namespace Level

def groupCount (l : Level) : Nat :=
  (l.branches.map Regex.groupCount).sum + (l.items.map Regex.groupCount).sum

def Only (groups : Nat → Prop) (l : Level) : Prop :=
  (∀ r ∈ l.branches, r.Only True groups) ∧ ∀ r ∈ l.items, r.Only True groups

variable {groups : Nat → Prop} {l : Level} {r : Regex}

theorem groupCount_push : (l.push r).groupCount = l.groupCount + r.groupCount := by
  simp only [push, groupCount, List.map_cons, List.sum_cons]
  omega

theorem groupCount_branch : l.branch.groupCount = (l.items.map Regex.groupCount).sum := by
  unfold branch
  rw [groupCount_concat, List.map_reverse, List.sum_reverse]

theorem groupCount_bar : l.bar.groupCount = l.groupCount := by
  simp only [bar, groupCount, List.map_cons, List.sum_cons, groupCount_branch, List.map_nil,
    List.sum_nil]
  omega

theorem groupCount_toRegex : l.toRegex.groupCount = l.groupCount := by
  rw [toRegex, groupCount_choice, List.map_reverse, List.sum_reverse, List.map_cons, List.sum_cons,
    groupCount_branch, groupCount, Nat.add_comm]

theorem Only.push (h : l.Only groups) (hr : r.Only True groups) : (l.push r).Only groups :=
  ⟨h.1, List.forall_mem_cons.2 ⟨hr, h.2⟩⟩

theorem Only.branch (h : l.Only groups) : l.branch.Only True groups :=
  only_concat fun r hr => h.2 r (List.mem_reverse.1 hr)

theorem Only.bar (h : l.Only groups) : l.bar.Only groups :=
  ⟨List.forall_mem_cons.2 ⟨h.branch, h.1⟩, fun _ hr => absurd hr List.not_mem_nil⟩

theorem Only.toRegex (h : l.Only groups) : l.toRegex.Only True groups :=
  only_choice fun r hr => (List.forall_mem_cons.2 ⟨h.branch, h.1⟩ : _) r (List.mem_reverse.1 hr)

theorem Only.mono {groups' : Nat → Prop} (h : l.Only groups)
    (hsub : ∀ i, groups i → groups' i) : l.Only groups' :=
  ⟨fun r hr => (h.1 r hr).mono hsub, fun r hr => (h.2 r hr).mono hsub⟩

theorem only_empty (groups : Nat → Prop) : ({} : Level).Only groups :=
  ⟨fun _ hr => absurd hr List.not_mem_nil, fun _ hr => absurd hr List.not_mem_nil⟩

end Level

namespace Waiting

def groupCount (w : Waiting) : Nat :=
  w.level.groupCount + w.capture.toList.length

def Only (groups : Nat → Prop) (w : Waiting) : Prop :=
  w.level.Only groups ∧ ∀ c ∈ w.capture, groups c.1

theorem Only.mono {groups groups' : Nat → Prop} {w : Waiting} (h : w.Only groups)
    (hsub : ∀ i, groups i → groups' i) : w.Only groups' :=
  ⟨h.1.mono hsub, fun c hc => hsub c.1 (h.2 c hc)⟩

theorem groupCount_part (w : Waiting) (r : Regex) :
    (w.part r).groupCount = r.groupCount + w.capture.toList.length := by
  obtain ⟨level, flags, _ | ⟨index, name⟩⟩ := w <;> rfl

theorem Only.part {groups : Nat → Prop} {w : Waiting} {r : Regex} (h : w.Only groups)
    (hr : r.Only True groups) : (w.part r).Only True groups := by
  obtain ⟨level, flags, _ | ⟨index, name⟩⟩ := w
  · exact hr
  · exact ⟨h.2 _ rfl, hr⟩

end Waiting

namespace Reader

/-- The capturing groups that were opened are all there is, and they have the first numbers. -/
structure Numbered (s : Reader) : Prop where
  count : s.level.groupCount + (s.waiting.map Waiting.groupCount).sum = s.captures
  level : s.level.Only (AmongFirst s.captures)
  waiting : ∀ w ∈ s.waiting, w.Only (AmongFirst s.captures)

variable {s u : Reader}

theorem numbered_empty : ({} : Reader).Numbered :=
  ⟨rfl, Level.only_empty _, fun _ hw => absurd hw List.not_mem_nil⟩

theorem Numbered.push (h : s.Numbered) {r : Regex} (hc : r.groupCount = 0)
    (hr : r.Only True (AmongFirst s.captures)) : (s.push r).Numbered where
  count := by
    show (s.level.push r).groupCount + _ = _
    rw [Level.groupCount_push, hc]
    exact h.count
  level := h.level.push hr
  waiting := h.waiting

theorem Numbered.pushSet (h : s.Numbered) (set : CharSet) : (s.pushSet set).Numbered :=
  let h := @Numbered.push s h (chars s.charParts set) rfl trivial
  ⟨h.count, h.level, h.waiting⟩

theorem Numbered.foldl_pushLiteral (h : s.Numbered) (text : List Char) :
    (text.foldl (fun s c => s.pushLiteral c.toNat) s).Numbered := by
  induction text generalizing s with
  | nil => exact h
  | cons c text ih => exact ih (h.pushSet _)

theorem Numbered.leave? (h : s.Numbered) (hu : s.leave? = some u) : u.Numbered := by
  obtain ⟨level, flags, waiting, captures, charParts, repeated⟩ := s
  cases waiting with
  | nil => exact nomatch hu
  | cons w waiting =>
    obtain rfl := Option.some.inj hu
    obtain ⟨hw, hws⟩ := List.forall_mem_cons.1 h.waiting
    refine ⟨?_, hw.1.push (hw.part h.level.toRegex), hws⟩
    have hcount := h.count
    simp only [List.map_cons, List.sum_cons, Waiting.groupCount] at hcount
    simp only [Level.groupCount_push, Waiting.groupCount_part, Level.groupCount_toRegex]
    omega

theorem Numbered.repeat? (h : s.Numbered) {least : Nat} {extra : Option Nat} {marked : Bool}
    (hu : s.repeat? least extra marked = some u) : u.Numbered := by
  obtain ⟨⟨branches, items⟩, flags, waiting, captures, charParts, repeated⟩ := s
  cases items with
  | nil => exact nomatch hu
  | cons r items =>
    simp only [Reader.repeat?] at hu
    split at hu
    · obtain rfl := Option.some.inj hu
      obtain ⟨hr, hrs⟩ := List.forall_mem_cons.1 h.level.2
      exact ⟨h.count, ⟨h.level.1, List.forall_mem_cons.2 ⟨hr, hrs⟩⟩, h.waiting⟩
    · exact nomatch hu

theorem Numbered.enter (h : s.Numbered) (flags : Flags) (name : Option (List Char)) :
    ({ s.enter flags (some (s.captures + 1, name)) with captures := s.captures + 1 } :
      Reader).Numbered := by
  have hsub : ∀ i, AmongFirst s.captures i → AmongFirst (s.captures + 1) i :=
    fun i hi => ⟨hi.1, Nat.le_succ_of_le hi.2⟩
  refine ⟨?_, Level.only_empty _, List.forall_mem_cons.2 ⟨⟨h.level.mono hsub, ?_⟩, ?_⟩⟩
  · have hcount := h.count
    simp [Reader.enter, Waiting.groupCount, Level.groupCount] at hcount ⊢
    omega
  · intro c hc
    obtain rfl := Option.some.inj hc
    exact ⟨Nat.succ_pos _, Nat.le_refl _⟩
  · exact fun w hw => (h.waiting w hw).mono hsub

theorem Numbered.step (h : s.Numbered) {t : Token} (hu : s.step t = some u) : u.Numbered := by
  cases t with
  | close => exact h.leave? hu
  | repetition least extra marked => exact h.repeat? hu
  | literal c =>
    obtain rfl := Option.some.inj hu
    exact h.pushSet _
  | dot | set =>
    obtain rfl := Option.some.inj hu
    exact h.pushSet _
  | caret | dollar | anchor =>
    obtain rfl := Option.some.inj hu
    exact h.push rfl trivial
  | quoted text =>
    obtain rfl := Option.some.inj hu
    exact @Numbered.foldl_pushLiteral { s with repeated := false } ⟨h.count, h.level,
      h.waiting⟩ text
  | openCapture name =>
    obtain rfl := Option.some.inj hu
    exact h.enter s.flags name
  | openFlags settings =>
    obtain rfl := Option.some.inj hu
    refine ⟨?_, Level.only_empty _,
      List.forall_mem_cons.2 ⟨⟨h.level, nofun⟩, h.waiting⟩⟩
    have hcount := h.count
    simp [Reader.enter, Waiting.groupCount, Level.groupCount] at hcount ⊢
    omega
  | setFlags settings =>
    obtain rfl := Option.some.inj hu
    exact ⟨h.count, h.level, h.waiting⟩
  | bar =>
    obtain rfl := Option.some.inj hu
    refine ⟨?_, h.level.bar, h.waiting⟩
    show s.level.bar.groupCount + _ = _
    rw [Level.groupCount_bar]
    exact h.count

theorem Numbered.foldlM (h : s.Numbered) {ts : List Token} (hu : ts.foldlM Reader.step s = some u) :
    u.Numbered := by
  induction ts generalizing s with
  | nil =>
    obtain rfl := Option.some.inj hu
    exact h
  | cons t ts ih =>
    rw [List.foldlM_cons] at hu
    obtain ⟨v, hv, hu⟩ := Option.bind_eq_some_iff.1 hu
    exact ih (h.step hv) hu

end Reader

theorem ofTokens?_eq_some_iff {ts : List Token} {r : Regex} : ofTokens? ts = some r ↔
    ∃ s, ts.foldlM Reader.step {} = some s ∧ s.waiting = [] ∧ r = s.level.toRegex := by
  rw [ofTokens?, Option.bind_eq_bind, Option.bind_eq_some_iff]
  refine exists_congr fun s => and_congr_right fun _ => ?_
  rw [Reader.finish?]
  cases s.waiting with
  | nil => simp [eq_comm]
  | cons w ws => simp

theorem ofBytes?_eq_some_iff {s : Bytes} {r : Regex} : ofBytes? s = some r ↔
    ∃ cs ts u, Utf8.decode? s = some cs ∧ tokens? cs = some ts ∧
      ts.foldlM Reader.step {} = some u ∧ u.waiting = [] ∧ r = u.level.toRegex := by
  constructor
  · intro h
    obtain ⟨cs, hcs, h⟩ := Option.bind_eq_some_iff.1 h
    obtain ⟨ts, hts, h⟩ := Option.bind_eq_some_iff.1 h
    obtain ⟨u, hu⟩ := ofTokens?_eq_some_iff.1 h
    exact ⟨cs, ts, u, hcs, hts, hu⟩
  · rintro ⟨cs, ts, u, hcs, hts, hu⟩
    have hread : ofTokens? ts = some r := ofTokens?_eq_some_iff.2 ⟨u, hu⟩
    exact Option.bind_eq_some_iff.2 ⟨cs, hcs, Option.bind_eq_some_iff.2 ⟨ts, hts, hread⟩⟩

theorem only_of_ofTokens? {ts : List Token} {r : Regex} (h : ofTokens? ts = some r) :
    r.Only True (AmongFirst r.groupCount) := by
  obtain ⟨s, hs, hw, rfl⟩ := ofTokens?_eq_some_iff.1 h
  have hn := Reader.numbered_empty.foldlM hs
  have hcount := hn.count
  rw [hw, List.map_nil, List.sum_nil, Nat.add_zero] at hcount
  rw [Level.groupCount_toRegex, hcount]
  exact hn.level.toRegex

/-- Within the group that begins, reading begins anew. -/
theorem Reader.step_openCapture {S : Reader} (hflags : S.flags = {}) :
    S.step (.openCapture none) = some (within (S.captures + 1) S.charParts
      (⟨S.level, S.flags, some (S.captures + 1, none)⟩ :: S.waiting) {}) := by
  simp [step, enter, within, Level.renumber, hflags]

/-- An expression between parentheses is read into one group, and the flags are the same after it.
-/
theorem foldlM_group {ts : List Token} {r : Regex} (h : ofTokens? ts = some r) {S : Reader}
    (hflags : S.flags = {}) : ∃ charParts,
      (Token.openCapture none :: (ts ++ [Token.close])).foldlM Reader.step S = some { S with
        level :=
          S.level.push (group (S.captures + 1) none (r.renumber (S.captures + 1) S.charParts))
        captures := S.captures + 1 + r.groupCount
        charParts := charParts
        repeated := false } := by
  obtain ⟨s, hs, hw, rfl⟩ := ofTokens?_eq_some_iff.1 h
  have hcount := (Reader.numbered_empty.foldlM hs).count
  rw [hw, List.map_nil, List.sum_nil, Nat.add_zero] at hcount
  refine ⟨s.charParts + S.charParts, ?_⟩
  rw [List.foldlM_cons, Reader.step_openCapture hflags, Option.bind_eq_bind, Option.bind_some,
    List.foldlM_append,
    Reader.foldlM_within hs, Option.bind_eq_bind, Option.bind_some, List.foldlM_cons]
  simp [Reader.step, Reader.leave?, Reader.within, hw, Level.toRegex_renumber, Waiting.part, hcount,
    Level.groupCount_toRegex, Nat.add_comm]

theorem foldl_pushLiteral_waiting (text : List Char) (s : Reader) :
    (text.foldl (fun s c => s.pushLiteral c.toNat) s).waiting = s.waiting := by
  induction text generalizing s with
  | nil => rfl
  | cons c text ih => exact ih _

theorem foldlM_literals_waiting (cs : List Char) {s u : Reader}
    (h : (cs.map fun c => Token.literal c.toNat).foldlM Reader.step s = some u) :
    u.waiting = s.waiting := by
  induction cs generalizing s with
  | nil =>
    obtain rfl := Option.some.inj h
    rfl
  | cons c cs ih => exact @ih (s.pushLiteral c.toNat) h

/-- The group that an expression opens is still open if a quoted text at its end takes in what
closes it. -/
theorem foldlM_group_unclosed {ts : List Token} {text text' cs : List Char} {r : Regex}
    (h : ofTokens? (ts ++ [.quoted text]) = some r) {S u : Reader} (hflags : S.flags = {})
    (hu : (Token.openCapture none :: (ts ++ .quoted text' :: cs.map fun c => .literal c.toNat)).foldlM
      Reader.step S = some u) : u.waiting ≠ [] := by
  obtain ⟨s, hs, hw, -⟩ := ofTokens?_eq_some_iff.1 h
  rw [List.foldlM_append] at hs
  obtain ⟨v, hv, hs⟩ := Option.bind_eq_some_iff.1 hs
  have hs : some (text.foldl (fun s c => s.pushLiteral c.toNat) { v with repeated := false }) =
    some s := hs
  have hvw : v.waiting = [] := by
    rw [← hw, ← Option.some.inj hs, foldl_pushLiteral_waiting]
  rw [List.foldlM_cons, Reader.step_openCapture hflags, Option.bind_eq_bind, Option.bind_some,
    List.foldlM_append,
    Reader.foldlM_within hv, Option.bind_eq_bind, Option.bind_some, List.foldlM_cons] at hu
  rw [foldlM_literals_waiting cs hu, foldl_pushLiteral_waiting]
  simp [Reader.within]

end RouteTable.Regex
