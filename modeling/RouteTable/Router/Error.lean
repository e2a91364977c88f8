import RouteTable.Pattern.Error

/-!
# Refused routes and routers

* `DuplicateRoute`: that a route would match the same paths as an earlier one
* `RouteError`: why a route is refused
* `ConfigError`: why a configuration is refused
-/

namespace RouteTable

/-- That a route matches exactly the paths of a route that is there already. -/
structure DuplicateRoute where
  /-- The pattern of the refused route. -/
  pattern : Bytes
  /-- The pattern of the route that is there. -/
  conflicting : Bytes
  deriving DecidableEq, Repr

def DuplicateRoute.message (e : DuplicateRoute) : Bytes :=
  shownMessage <|
    if e.pattern = e.conflicting then
      Bytes.ofString "Duplicate route " ++ PatternFault.quoted e.pattern
    else
      Bytes.ofString "Route " ++ PatternFault.quoted e.pattern ++
        Bytes.ofString " duplicates already registered route " ++ PatternFault.quoted e.conflicting

inductive RouteError where
  | invalid (e : PatternError)
  | duplicate (e : DuplicateRoute)
  deriving DecidableEq, Repr

inductive ConfigError where
  /-- No kind of index has the number that was given. -/
  | unknownKind
  /-- The routes cannot be ranked without a comparison. -/
  | noComparison
  deriving DecidableEq, Repr

def ConfigError.message : ConfigError → Bytes
  | unknownKind => Bytes.ofString "Unknown candidate index kind"
  | noComparison => Bytes.ofString "Cannot build a router with an empty endpoint comparator"

end RouteTable
