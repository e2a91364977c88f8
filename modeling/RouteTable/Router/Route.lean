import RouteTable.Pattern.Match

/-!
# Routes

* `Route`: a pattern with the value that its paths lead to
* `Found`: a route that matches a path, with the values of its variables
-/

namespace RouteTable

structure Route (α : Type) where
  pattern : Pattern
  value : α
  deriving DecidableEq

structure Found (α : Type) where
  route : Route α
  bindings : Bindings

namespace Route

variable {α : Type}

/-- The usual comparison of routes: whether `a` has the more specific pattern. -/
def moreSpecific (a b : Route α) : Bool :=
  a.pattern.specificity.moreSpecific b.pattern.specificity

def match? (r : Route α) (path : Bytes) : Option (Found α) :=
  (r.pattern.match? path).map (⟨r, ·⟩)

end Route

end RouteTable
