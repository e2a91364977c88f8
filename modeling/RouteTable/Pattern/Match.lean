import RouteTable.Pattern.Basic
import RouteTable.Regex.Matcher

/-!
# Matching paths

* `Bindings`: the values of a pattern's variables
* `Pattern.match?`: the bindings with which a pattern matches a path, if it does
-/

namespace RouteTable

/-- The values of variables, in the order of the bytes of their names. -/
abbrev Bindings := List (Bytes × Bytes)

def Bindings.ofList (l : List (Bytes × Bytes)) : Bindings :=
  l.mergeSort fun a b => decide (a.1 ≤ b.1)

/-- The values that the groups of the variables captured. It is an assumption that a path that is
not in UTF-8 is matched by nothing; an engine that reads bytes may take an encoded surrogate for a
character. -/
def Matcher.match? (m : Matcher) (path : Bytes) : Option Bindings := do
  let text ← Utf8.decode? path
  let marks ← m.regex.match? text
  return .ofList (m.captures.map fun (name, index) =>
    (name, Utf8.encode (Regex.capture text marks index)))

def Pattern.match? (p : Pattern) (path : Bytes) : Option Bindings :=
  match p.matcher with
  | none => if path = p.literalPrefix then some [] else none
  | some m => m.match? path

def Pattern.isMatch (p : Pattern) (path : Bytes) : Bool :=
  (p.match? path).isSome

end RouteTable
