import RouteTable.Pattern.Scan
import RouteTable.Regex.Parser

/-!
# Validity of segments

* `Variable.isName`: whether a text can name a variable
* `RuleGroups`: what the check of a row of segments asks about a rule
* `Segment.validate`: the first fault of a row of segments, or the numbers of capturing groups of
  its variables
* `Segment.parse`: the segments of a pattern whose names and rules are valid
-/

namespace RouteTable

/-! ## Names -/

/-- Whether a name may begin with the character: a letter, an underscore or a dollar sign. -/
def Variable.startsName (c : Char) : Bool :=
  c == '$' || c == '_' || Unicode.Category.letter.contains c.toNat

def Variable.continuesName (c : Char) : Bool :=
  startsName c || Unicode.Category.decimalDigit.contains c.toNat

def Variable.isName (name : Bytes) : Bool :=
  match Utf8.decode? name with
  | some (c :: cs) => startsName c && cs.all continuesName
  | _ => false

/-! ## Rules -/

/-- What is asked about a rule: the names of its named groups, each once and in the order in which
they are looked at, and the number of its capturing groups. -/
structure RuleGroups where
  names : List Bytes
  nodup : names.Nodup
  count : Nat

/-- The names of the named groups of an expression as bytes, each once and in the order of their
bytes. -/
def Regex.sortedGroupNames (r : Regex) : List Bytes :=
  (r.groupNames.map Utf8.encode).eraseDups.mergeSort fun a b => decide (a ≤ b)

theorem nodup_eraseDups {α : Type} [BEq α] [LawfulBEq α] : ∀ l : List α, l.eraseDups.Nodup
  | [] => List.nodup_nil
  | a :: l => by
    rw [List.eraseDups_cons, List.nodup_cons, List.mem_eraseDups, List.mem_filter]
    exact ⟨by simp, nodup_eraseDups _⟩
termination_by l => l.length
decreasing_by exact Nat.lt_succ_of_le (List.length_filter_le _ _)

theorem Regex.nodup_sortedGroupNames (r : Regex) : r.sortedGroupNames.Nodup :=
  (List.mergeSort_perm _ _).nodup_iff.2 (nodup_eraseDups _)

/-- The groups of the expression that a rule is, or `none` if it is no expression. -/
def RuleGroups.ofRule? (rule : Bytes) : Option RuleGroups :=
  (Regex.ofBytes? rule).map fun r =>
    ⟨r.sortedGroupNames, r.nodup_sortedGroupNames, r.groupCount⟩

/-- The groups of a variable's rule, where `groupsOf?` answers for rules that are not empty. -/
def Variable.groups (groupsOf? : Bytes → Option RuleGroups) (v : Variable) :
    Except PatternFault RuleGroups :=
  if v.rule = [] then .error (.emptyRule v.name)
  else
    match groupsOf? v.rule with
    | some g => .ok g
    | none => .error (.invalidRule v.rule v.name)

/-! ## Segments -/

namespace Segment

/-- Adds the names of the groups of the named variable's rule to those of the variables before it.
-/
def addGroups (name : Bytes) (seen : List Bytes) : List Bytes → Except PatternFault (List Bytes)
  | [] => .ok seen
  | group :: groups =>
    if group ∈ seen then .error (.duplicateGroup group name)
    else addGroups name (group :: seen) groups

/-- Checks a row of segments, given the names of the variables and of the groups before it. The
answer is the number of capturing groups of each variable's rule. What is known of rules comes from
`groupsOf?`. -/
def validateWith (groupsOf? : Bytes → Option RuleGroups) (names groups : List Bytes) :
    List Segment → Except PatternFault (List Nat)
  | [] => .ok []
  | literal text :: segments =>
    if Utf8.isValid text then validateWith groupsOf? names groups segments
    else .error .literalNotUtf8
  | var v :: segments =>
    if !Variable.isName v.name then .error (.invalidName v.name)
    else if v.name ∈ names then .error (.duplicateName v.name)
    else do
      let rule ← v.groups groupsOf?
      let groups ← addGroups v.name groups rule.names
      let counts ← validateWith groupsOf? (v.name :: names) groups segments
      return rule.count :: counts

/-- Checks a row of segments: literals are in UTF-8, variables have proper names that differ, and
rules are regular expressions whose named groups differ from one variable to another. The answer is
the number of capturing groups of each variable's rule. -/
def validate (segments : List Segment) : Except PatternFault (List Nat) :=
  validateWith RuleGroups.ofRule? [] [] segments

def parse (pattern : Bytes) : Except PatternError (List Segment) := do
  let segments ← scan pattern
  match validate segments with
  | .ok _ => .ok segments
  | .error fault => .error ⟨pattern, fault⟩

end Segment

end RouteTable
