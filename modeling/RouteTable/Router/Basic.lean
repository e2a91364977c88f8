import RouteTable.Router.Draft

/-!
# Routers

A router answers which routes match a path. The literal route that is the path itself comes first,
and then come the routes with variables in the order of the ranking.

* `Router.ofDraft`: the router of a draft under a comparison of routes
* `Router.find`: the first route that matches a path
* `Router.findAll`: all routes that match a path
-/

namespace RouteTable

/-- Ranked routes with an index of their patterns. -/
structure Router (α : Type) where
  routes : Array (Route α)
  index : Index

namespace Router

variable {α : Type}

def ofRanking (config : IndexConfig) (ranking : List (Route α)) : Router α where
  routes := ranking.toArray
  index := .build config (ranking.map (·.pattern))

def empty : Router α :=
  ofRanking {} []

/-- The router of a draft. A comparison of routes is needed; `prefers a b` tells that `a` is to be
preferred to `b`. -/
def ofDraft (d : Draft α) (prefers : Option (Route α → Route α → Bool)) :
    Except ConfigError (Router α) :=
  match prefers with
  | none => .error .noComparison
  | some prefers => .ok (ofRanking d.config (d.ranked prefers))

def size (r : Router α) : Nat :=
  r.routes.size

def route? (r : Router α) (pos : UInt32) : Option (Route α) :=
  r.routes[pos.toNat]?

def exactAt? (r : Router α) (pos : UInt32) : Option (Found α) :=
  (r.route? pos).map (⟨·, []⟩)

def matchAt? (r : Router α) (path : Bytes) (pos : UInt32) : Option (Found α) :=
  (r.route? pos).bind (·.match? path)

/-! ## Queries -/

/-- The candidates for a path, collected in the given set, which need not be empty nor of the right
capacity. -/
def candidates (r : Router α) (path : Bytes) (buffer : PositionSet) : Candidates :=
  r.index.collect path (buffer.reset r.index.count)

/-- The first route that matches the path, if there is one. The candidates are collected in
`buffer`, which is returned to be used again. -/
def find (r : Router α) (path : Bytes) (buffer : PositionSet) : Option (Found α) × PositionSet :=
  let c := r.candidates path buffer
  let found :=
    match c.exact with
    | some pos => r.exactAt? pos
    | none => c.positions.toList.findSome? (r.matchAt? path)
  (found, c.positions)

/-- All routes that match the path, in the order in which they are to be preferred. -/
def findAll (r : Router α) (path : Bytes) : List (Found α) :=
  let c := r.candidates path (.empty 0)
  (c.exact.bind r.exactAt?).toList ++ c.positions.toList.filterMap (r.matchAt? path)

end Router

end RouteTable
