/-!
# Specificity of patterns

* `Specificity`: how closely a pattern describes its paths
* `Specificity.compare`: fewer variables are more specific, and then more literal characters
-/

namespace RouteTable

/-- How closely a pattern describes its paths, in 32-bit numbers. -/
structure Specificity where
  variableCount : UInt32
  literalCount : UInt32
  deriving DecidableEq, Repr

namespace Specificity

/-- Compares two patterns, the greater one being more specific: it has fewer variables, or as many
variables and more literal characters. -/
def compare (a b : Specificity) : Ordering :=
  (Ord.compare b.variableCount a.variableCount).then (Ord.compare a.literalCount b.literalCount)

instance : Ord Specificity := ⟨compare⟩

def moreSpecific (a b : Specificity) : Bool :=
  (a.compare b).isGT

end Specificity

end RouteTable
