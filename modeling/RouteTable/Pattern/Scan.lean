import RouteTable.Pattern.Error
import RouteTable.Pattern.Segment

/-!
# Reading the segments of a pattern

A pattern is read from left to right. An opening brace with a backslash directly in front is
literal, and any other one begins the declaration of a variable, up to the closing brace that
belongs to it.

* `Variable.body?`: the text between the braces of a declaration
* `Segment.scan`: the segments of a pattern, names and rules unchecked
-/

namespace RouteTable

/-! ## Declarations -/

def Variable.extendBody (read : Bytes) (o : Option (Bytes × Bytes)) : Option (Bytes × Bytes) :=
  o.map fun p => (read ++ p.1, p.2)

/-- The text of a declaration up to the closing brace that belongs to it, and what follows that
brace. `depth` braces have been opened and not closed. A backslash takes the meaning from the byte
that follows. -/
def Variable.body? (depth : Nat) : Bytes → Option (Bytes × Bytes)
  | [] => none
  | b :: s =>
    if b = Byte.closeBrace then
      match depth with
      | 0 => some ([], s)
      | depth + 1 => extendBody [b] (body? depth s)
    else if b = Byte.openBrace then extendBody [b] (body? (depth + 1) s)
    else if b = Byte.backslash then
      match s with
      | [] => none
      | c :: s => extendBody [b, c] (body? depth s)
    else extendBody [b] (body? depth s)

/-- The variable that a declaration with the given text declares. The name ends at the first colon,
and the rule is all that follows it. -/
def Variable.ofBody (body : Bytes) : Variable :=
  match body.dropWhile (· ≠ Byte.colon) with
  | [] => { name := body, rule := defaultRule, isDefault := true }
  | _ :: rule =>
    { name := body.takeWhile (· ≠ Byte.colon), rule := rule, isDefault := false }

theorem Variable.extendBody_eq_some {read body rest : Bytes} {o : Option (Bytes × Bytes)} :
    extendBody read o = some (body, rest) ↔
      ∃ tail, o = some (tail, rest) ∧ body = read ++ tail := by
  cases o with
  | none => simp [extendBody]
  | some p => grind [extendBody]

theorem Variable.body?_length {depth : Nat} {s body rest : Bytes}
    (h : body? depth s = some (body, rest)) : rest.length < s.length := by
  fun_induction body? depth s generalizing body with
  | case1 => simp at h
  | case2 => simp_all
  | case3 _ _ ih | case4 _ _ _ ih | case7 _ _ _ _ _ _ ih =>
    obtain ⟨_, h, _⟩ := extendBody_eq_some.1 h
    exact Nat.lt_succ_of_lt (ih h)
  | case5 => simp at h
  | case6 _ _ _ _ _ ih =>
    obtain ⟨_, h, _⟩ := extendBody_eq_some.1 h
    exact Nat.lt_succ_of_lt (Nat.lt_succ_of_lt (ih h))

/-! ## Segments -/

namespace Segment

def scanFrom (index : Nat) (s : Bytes) : Except PatternFault (List Segment) :=
  match s with
  | [] => .ok []
  | b :: s =>
    if b = Byte.openBrace then
      match _h : Variable.body? 0 s with
      | none => .error (.unclosedVariable index)
      | some (body, rest) => do
        let segments ← scanFrom (index + (s.length - rest.length) + 1) rest
        return var (.ofBody body) :: segments
    else
      match s with
      | c :: s₂ =>
        if b = Byte.backslash ∧ c = Byte.openBrace then do
          return prepend [c] (← scanFrom (index + 2) s₂)
        else do
          return prepend [b] (← scanFrom (index + 1) (c :: s₂))
      | [] => .ok [literal [b]]
termination_by s.length
decreasing_by
  · have := Variable.body?_length _h
    simp only [List.length_cons]
    omega
  · simp only [List.length_cons]
    omega
  · simp only [List.length_cons]
    omega

/-- The segments of a pattern. Only its encoding and its braces are checked. -/
def scan (pattern : Bytes) : Except PatternError (List Segment) :=
  (if Utf8.isValid pattern then scanFrom 0 pattern else .error .notUtf8).mapError
    fun fault => ⟨pattern, fault⟩

end Segment

end RouteTable
