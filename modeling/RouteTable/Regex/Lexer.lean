import RouteTable.Regex.Token

/-!
# Reading the tokens of a regular expression

Less is read than the documented syntax has. The escape of a single byte is no token, nor is a group
whose name stands between angle brackets without a `P` in front, or has other than ASCII characters.
Of the properties of characters only those in `Unicode.Category` are known. An expression with
anything else does not compile here. A count in braces is a number of any length, and the expression
is refused if it is too great; engines that read the brace of a very great count as a literal are
not followed.

* `Regex.Token.next?`: the first token of a text and what follows it
* `Regex.Token.next?_length`: what follows is shorter
* `Regex.tokens?`: all tokens of a text, or `none` if a part of it is no token
-/

namespace RouteTable.Regex

/-! ## Parts of tokens -/

/-- Cuts a text at the first place where `marker` begins: what is before it, and what is after. -/
def cut? (marker : List Char) : List Char → Option (List Char × List Char)
  | [] => none
  | c :: r =>
    if marker.isPrefixOf (c :: r) then some ([], (c :: r).drop marker.length)
    else (cut? marker r).map fun (before, after) => (c :: before, after)

def digitsValue (base : Nat) (digits : List Char) : Nat :=
  digits.foldl (fun n d => base * n + hexValue d) 0
where
  /-- The value of one digit, of which there are up to sixteen. -/
  hexValue (d : Char) : Nat :=
    if d.isDigit then d.toNat - '0'.toNat
    else if d.isLower then d.toNat - 'a'.toNat + 10
    else d.toNat - 'A'.toNat + 10

def isOctalDigit (c : Char) : Bool :=
  '0' ≤ c && c ≤ '7'

def isHexDigit (c : Char) : Bool :=
  CharClass.hexDigit.contains c.toNat

/-- A decimal number without leading zeros. -/
def number? (s : List Char) : Option (Nat × List Char) :=
  match s.takeWhile Char.isDigit with
  | [] => none
  | '0' :: _ :: _ => none
  | digits => some (digitsValue 10 digits, s.dropWhile Char.isDigit)

/-- The bounds of a repetition, after its opening brace: a number of times, at least that number, or
between two numbers. A number of any length is one, however great. -/
def bounds? (s : List Char) : Option ((Nat × Option Nat) × List Char) :=
  match number? s with
  | some (n, '\x7d' :: r) => some ((n, some n), r)
  | some (n, ',' :: '\x7d' :: r) => some ((n, none), r)
  | some (n, ',' :: r) =>
    match number? r with
    | some (m, '\x7d' :: r) => some ((n, some m), r)
    | _ => none
  | _ => none

/-- The character that an escape stands for, after its backslash. -/
def escape? : List Char → Option (Nat × List Char)
  | 'x' :: '\x7b' :: r =>
    let digits := r.takeWhile isHexDigit
    match r.dropWhile isHexDigit with
    | '\x7d' :: r =>
      if digits ≠ [] ∧ digitsValue 16 digits ≤ 0x10FFFF then some (digitsValue 16 digits, r)
      else none
    | _ => none
  | 'x' :: h₁ :: h₂ :: r =>
    if isHexDigit h₁ && isHexDigit h₂ then some (digitsValue 16 [h₁, h₂], r) else none
  | 'a' :: r => some (0x07, r)
  | 'f' :: r => some (0x0C, r)
  | 'n' :: r => some (0x0A, r)
  | 'r' :: r => some (0x0D, r)
  | 't' :: r => some (0x09, r)
  | 'v' :: r => some (0x0B, r)
  | c :: r =>
    if isOctalDigit c then
      let more := (r.take 2).takeWhile isOctalDigit
      if c ≠ '0' ∧ more = [] then none
      else some (digitsValue 8 (c :: more), r.drop more.length)
    else if c.toNat < 0x80 && !c.isAlphanum then some (c.toNat, r)
    else none
  | [] => none

def classEscape? : Char → Option CharItem
  | 'd' => some (.named .digit false)
  | 'D' => some (.named .digit true)
  | 's' => some (.named .blankSpace false)
  | 'S' => some (.named .blankSpace true)
  | 'w' => some (.named .word false)
  | 'W' => some (.named .word true)
  | _ => none

def categoryNamed? (negated : Bool) : List Char → Option CharItem
  | '^' :: name => (Unicode.Category.ofName? name).map fun g => .named (.category g) !negated
  | name => (Unicode.Category.ofName? name).map fun g => .named (.category g) negated

/-- A Unicode category, after the letter of its escape: one letter, or a name in braces. -/
def category? (negated : Bool) : List Char → Option (CharItem × List Char)
  | [] => none
  | '\x7b' :: r => do
    let (name, r) ← cut? ['\x7d'] r
    return (← categoryNamed? negated name, r)
  | c :: r => do return (← categoryNamed? negated [c], r)

/-! ## Bracket expressions -/

def classNamed? : List Char → Option CharItem
  | '^' :: name => (CharClass.ofName? name).map fun cls => .named cls true
  | name => (CharClass.ofName? name).map fun cls => .named cls false

def bracketChar? : List Char → Option (Nat × List Char)
  | [] => none
  | '\\' :: r => escape? r
  | c :: r => some (c.toNat, r)

/-- One character in a bracket expression, or two with a hyphen between them that stand for all that
lie between them. A hyphen in front of the closing bracket stands for itself. -/
def bracketRange? (s : List Char) : Option (CharItem × List Char) :=
  match bracketChar? s with
  | none => none
  | some (lo, '-' :: c :: r) =>
    if c = ']' then some (.range lo lo, '-' :: c :: r)
    else
      match bracketChar? (c :: r) with
      | none => none
      | some (hi, r) => if lo ≤ hi then some (.range lo hi, r) else none
  | some (lo, r) => some (.range lo lo, r)

/-- One part of a bracket expression. What begins like a named class is one if the end of its name
comes anywhere later in the text. -/
def bracketItem? (s : List Char) : Option (CharItem × List Char) :=
  match s with
  | '[' :: ':' :: r =>
    match cut? [':', ']'] r with
    | some (name, r) => (classNamed? name).map (·, r)
    | none => bracketRange? s
  | '\\' :: c :: r =>
    if c = 'p' then category? false r
    else if c = 'P' then category? true r
    else
      match classEscape? c with
      | some item => some (item, r)
      | none => bracketRange? s
  | _ => bracketRange? s

/-! ## Lengths -/

theorem cut?_length {marker s before after : List Char} (h : cut? marker s = some (before, after)) :
    after.length ≤ s.length := by
  induction s generalizing before with
  | nil => simp [cut?] at h
  | cons c r ih =>
    rw [cut?] at h
    split at h
    · simp only [Option.some.injEq, Prod.mk.injEq] at h
      rw [← h.2, List.length_drop]
      omega
    · obtain ⟨⟨b, a⟩, hc, h⟩ := Option.map_eq_some_iff.1 h
      simp only [Prod.mk.injEq] at h
      have := ih (h.2 ▸ hc)
      rw [List.length_cons]
      omega

theorem dropWhile_length_le (p : Char → Bool) (s : List Char) :
    (s.dropWhile p).length ≤ s.length :=
  (List.dropWhile_suffix p).length_le

theorem number?_length {s r : List Char} {n : Nat} (h : number? s = some (n, r)) :
    r.length ≤ s.length := by
  rw [number?] at h
  split at h <;> simp only [Option.some.injEq, Prod.mk.injEq, reduceCtorEq] at h
  exact h.2 ▸ dropWhile_length_le _ _

theorem bounds?_length {s r : List Char} {b : Nat × Option Nat} (h : bounds? s = some (b, r)) :
    r.length ≤ s.length := by
  rw [bounds?] at h
  split at h
  · next h₁ =>
    have := number?_length h₁
    simp_all
    omega
  · next h₁ =>
    have := number?_length h₁
    simp_all
    omega
  · next h₁ =>
    have := number?_length h₁
    split at h
    · next h₂ =>
      have := number?_length h₂
      simp_all
      omega
    · simp at h
  · simp at h

theorem escape?_length {s r : List Char} {c : Nat} (h : escape? s = some (c, r)) :
    r.length < s.length := by
  rw [escape?.eq_def] at h
  split at h
  · next r₁ =>
    have h₁ := dropWhile_length_le isHexDigit r₁
    dsimp only at h
    split at h
    · next h₂ =>
      rw [h₂] at h₁
      split at h <;> simp_all
      omega
    · simp at h
  all_goals try (simp_all; done)
  · split at h <;> simp_all
    omega
  · split at h
    · dsimp only at h
      split at h
      · simp at h
      · simp only [Option.some.injEq, Prod.mk.injEq] at h
        rw [← h.2, List.length_drop, List.length_cons]
        omega
    · split at h <;> simp_all

theorem category?_length {negated : Bool} {s r : List Char} {item : CharItem}
    (h : category? negated s = some (item, r)) : r.length < s.length := by
  rw [category?.eq_def] at h
  split at h
  · simp at h
  · simp only [Option.bind_eq_bind, Option.bind_eq_some_iff] at h
    obtain ⟨⟨name, r₁⟩, h₁, _, _, h₂⟩ := h
    have := cut?_length h₁
    simp only [Option.pure_def, Option.some.injEq, Prod.mk.injEq] at h₂
    rw [← h₂.2, List.length_cons]
    omega
  · simp only [Option.bind_eq_bind, Option.bind_eq_some_iff] at h
    obtain ⟨_, _, h₂⟩ := h
    simp_all

theorem bracketChar?_length {s r : List Char} {c : Nat} (h : bracketChar? s = some (c, r)) :
    r.length < s.length := by
  rw [bracketChar?.eq_def] at h
  split at h
  · simp at h
  · have := escape?_length h
    simp only [List.length_cons]
    omega
  · simp_all

theorem bracketRange?_length {s r : List Char} {item : CharItem}
    (h : bracketRange? s = some (item, r)) : r.length < s.length := by
  rw [bracketRange?] at h
  split at h
  · simp at h
  · next h₁ =>
    have h₁ := bracketChar?_length h₁
    split at h
    · simp only [Option.some.injEq, Prod.mk.injEq] at h
      rw [← h.2]
      exact h₁
    · split at h
      · simp at h
      · next h₂ =>
        have h₂ := bracketChar?_length h₂
        split at h <;> simp_all
        omega
  · next h₁ =>
    have h₁ := bracketChar?_length h₁
    simp_all

theorem bracketItem?_length {s r : List Char} {item : CharItem}
    (h : bracketItem? s = some (item, r)) : r.length < s.length := by
  rw [bracketItem?.eq_def] at h
  split at h
  · split at h
    · next h₁ =>
      have := cut?_length h₁
      obtain ⟨_, _, h⟩ := Option.map_eq_some_iff.1 h
      simp only [Prod.mk.injEq] at h
      simp only [List.length_cons, ← h.2]
      omega
    · exact bracketRange?_length h
  · split at h
    · have := category?_length h
      simp only [List.length_cons]
      omega
    · split at h
      · have := category?_length h
        simp only [List.length_cons]
        omega
      · split at h
        · simp only [Option.some.injEq, Prod.mk.injEq] at h
          simp only [List.length_cons, ← h.2]
          omega
        · exact bracketRange?_length h
  · exact bracketRange?_length h

/-! ## Tokens -/

def bracketItems? (s : List Char) : Option (List CharItem × List Char) :=
  match _h : bracketItem? s with
  | none => none
  | some (item, ']' :: r) => some ([item], r)
  | some (item, r) => (bracketItems? r).map fun (items, r) => (item :: items, r)
termination_by s.length
decreasing_by exact bracketItem?_length _h

def bracket? : List Char → Option (Token × List Char)
  | '^' :: r => (bracketItems? r).map fun (items, r) => (.set items true, r)
  | r => (bracketItems? r).map fun (items, r) => (.set items false, r)

/-- The flags of a group, after its question mark. Flags after a hyphen are turned off, and a hyphen
has a flag after it. A colon opens the group, and a parenthesis ends it at once. -/
def flagGroup? (settings : List FlagSetting) (on flagged : Bool) :
    List Char → Option (Token × List Char)
  | [] => none
  | c :: r =>
    if c = ':' then if on || flagged then some (.openFlags settings, r) else none
    else if c = ')' then if on || flagged then some (.setFlags settings, r) else none
    else if c = '-' then if on then flagGroup? settings false false r else none
    else
      match Flag.ofChar? c with
      | some f => flagGroup? (settings ++ [(f, on)]) on true r
      | none => none

/-- Whether a group may have the name. It has ASCII word characters only, although other letters may
be documented, too. -/
def isGroupName (name : List Char) : Bool :=
  !name.isEmpty && name.all fun c => CharClass.word.contains c.toNat

/-- The opening of a group, after its parenthesis. A name comes behind `?P`; the form without the
`P` is refused. -/
def group? : List Char → Option (Token × List Char)
  | '?' :: 'P' :: '<' :: r =>
    match cut? ['>'] r with
    | some (name, r) => if isGroupName name then some (.openCapture (some name), r) else none
    | none => none
  | '?' :: r => flagGroup? [] true false r
  | r => some (.openCapture none, r)

def markable (least : Nat) (extra : Option Nat) : List Char → Token × List Char
  | '?' :: r => (.repetition least extra true, r)
  | r => (.repetition least extra false, r)

def maxRepeat : Nat := 1000

/-- A token that begins with a brace, after it: a repetition with bounds, or the brace itself if no
bounds follow. Bounds that are too great are refused and never read as text. -/
def brace? (s : List Char) : Option (Token × List Char) :=
  match bounds? s with
  | none => some (.literal '\x7b'.toNat, s)
  | some ((least, none), r) => if least ≤ maxRepeat then some (markable least none r) else none
  | some ((least, some most), r) =>
    if most ≤ maxRepeat ∧ least ≤ most then some (markable least (some (most - least)) r)
    else none

/-- A token that begins with a backslash, after it. The escape `C` of a single byte is not among
them. -/
def backslash? (s : List Char) : Option (Token × List Char) :=
  match s with
  | [] => none
  | c :: r =>
    if c = 'A' then some (.anchor .textStart, r)
    else if c = 'z' then some (.anchor .textEnd, r)
    else if c = 'b' then some (.anchor .wordBoundary, r)
    else if c = 'B' then some (.anchor .notWordBoundary, r)
    else if c = 'Q' then
      match cut? ['\\', 'E'] r with
      | some (text, r) => some (.quoted text, r)
      | none => some (.quoted r, [])
    else if c = 'p' then (category? false r).map fun (item, r) => (.set [item] false, r)
    else if c = 'P' then (category? true r).map fun (item, r) => (.set [item] false, r)
    else
      match classEscape? c with
      | some item => some (.set [item] false, r)
      | none => (escape? s).map fun (c, r) => (.literal c, r)

def sign? : Char → Option Token
  | ')' => some .close
  | '|' => some .bar
  | '.' => some .dot
  | '^' => some .caret
  | '$' => some .dollar
  | _ => none

def repeatSign? : Char → Option (Nat × Option Nat)
  | '*' => some (0, none)
  | '+' => some (1, none)
  | '?' => some (0, some 1)
  | _ => none

def Token.next? : List Char → Option (Token × List Char)
  | [] => none
  | c :: r =>
    if c = '(' then group? r
    else if c = '\x7b' then brace? r
    else if c = '[' then bracket? r
    else if c = '\\' then backslash? r
    else
      match sign? c, repeatSign? c with
      | some t, _ => some (t, r)
      | none, some (least, extra) => some (markable least extra r)
      | none, none => some (.literal c.toNat, r)

/-! ## Whole texts -/

theorem bracketItems?_length {s r : List Char} {items : List CharItem}
    (h : bracketItems? s = some (items, r)) : r.length < s.length := by
  fun_induction bracketItems? s generalizing items r with
  | case1 => simp at h
  | case2 s item r₁ h₁ =>
    have := bracketItem?_length h₁
    simp_all
    omega
  | case3 s item r₁ _ h₁ ih =>
    have := bracketItem?_length h₁
    obtain ⟨⟨items₂, r₂⟩, h₂, h⟩ := Option.map_eq_some_iff.1 h
    have := ih h₂
    simp_all
    omega

theorem bracket?_length {s r : List Char} {t : Token} (h : bracket? s = some (t, r)) :
    r.length < s.length := by
  rw [bracket?.eq_def] at h
  split at h
  · obtain ⟨⟨_, _⟩, h₁, h⟩ := Option.map_eq_some_iff.1 h
    have := bracketItems?_length h₁
    simp_all
    omega
  · obtain ⟨⟨_, _⟩, h₁, h⟩ := Option.map_eq_some_iff.1 h
    have := bracketItems?_length h₁
    simp_all

theorem flagGroup?_length {settings : List FlagSetting} {on flagged : Bool} {s r : List Char}
    {t : Token} (h : flagGroup? settings on flagged s = some (t, r)) : r.length < s.length := by
  induction s generalizing settings on flagged with
  | nil => simp [flagGroup?] at h
  | cons c s ih =>
    rw [flagGroup?] at h
    rw [List.length_cons]
    repeat' split at h
    all_goals first
      | simp only [Option.some.injEq, Prod.mk.injEq, reduceCtorEq] at h
        rw [← h.2]
        omega
      | exact Nat.lt_succ_of_lt (ih h)
      | simp at h

theorem group?_length {s r : List Char} {t : Token} (h : group? s = some (t, r)) :
    r.length ≤ s.length := by
  rw [group?.eq_def] at h
  split at h
  · split at h
    · next h₁ =>
      have := cut?_length h₁
      split at h <;> simp_all
      omega
    · simp at h
  · have := flagGroup?_length h
    rw [List.length_cons]
    omega
  · simp_all

theorem markable_length {least : Nat} {extra : Option Nat} {s r : List Char} {t : Token}
    (h : markable least extra s = (t, r)) : r.length ≤ s.length := by
  rw [markable.eq_def] at h
  split at h <;> simp_all

theorem brace?_length {s r : List Char} {t : Token} (h : brace? s = some (t, r)) :
    r.length ≤ s.length := by
  rw [brace?] at h
  split at h
  · simp_all
  · next h₁ =>
    split at h
    · exact Nat.le_trans (markable_length (Option.some.inj h)) (bounds?_length h₁)
    · simp at h
  · next h₁ =>
    split at h
    · exact Nat.le_trans (markable_length (Option.some.inj h)) (bounds?_length h₁)
    · simp at h

theorem backslash?_length {s r : List Char} {t : Token} (h : backslash? s = some (t, r)) :
    r.length ≤ s.length := by
  rw [backslash?.eq_def] at h
  split at h
  · simp at h
  · next c s =>
    rw [List.length_cons]
    iterate 4
      split at h
      · simp_all
    split at h
    · split at h
      · next h₁ =>
        have := cut?_length h₁
        simp_all
        omega
      · simp_all
    iterate 2
      split at h
      · obtain ⟨_, h₁, h⟩ := Option.map_eq_some_iff.1 h
        have := category?_length h₁
        simp_all
        omega
    split at h
    · simp_all
    · obtain ⟨_, h₁, h⟩ := Option.map_eq_some_iff.1 h
      have := escape?_length h₁
      simp_all
      omega

theorem Token.next?_length {s r : List Char} {t : Token} (h : next? s = some (t, r)) :
    r.length < s.length := by
  rw [next?.eq_def] at h
  split at h
  · simp at h
  · next c s =>
    rw [List.length_cons, Nat.lt_succ_iff]
    split at h
    · exact group?_length h
    split at h
    · exact brace?_length h
    split at h
    · exact Nat.le_of_lt (bracket?_length h)
    split at h
    · exact backslash?_length h
    split at h
    · simp_all
    · exact markable_length (Option.some.inj h)
    · simp_all

def tokens? (s : List Char) : Option (List Token) :=
  match s with
  | [] => some []
  | c :: cs =>
    match _h : Token.next? (c :: cs) with
    | none => none
    | some (t, r) => (tokens? r).map (t :: ·)
termination_by s.length
decreasing_by exact Token.next?_length _h

end RouteTable.Regex
