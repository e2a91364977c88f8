import RouteTable.Index.Choice
import RouteTable.Router.Error
import RouteTable.Router.Route

/-!
# Routes before they are ranked

Routes are added one by one. A route is refused if its pattern has the shape of an earlier one,
since it would match the same paths.

* `ShapeTable.register`: remembers the shape of a pattern
* `Draft.add`, `Draft.addInput`, `Draft.addAll`: adds a route, and a row of them
* `Draft.addInPlace`: an addition as a change of the draft, step by step
* `Draft.ranked`: the routes, those to be preferred first
-/

namespace RouteTable

/-! ## Shapes -/

/-- The shapes of the patterns so far, each with the text that spells the pattern. -/
structure ShapeTable where
  entries : List (Bytes × Bytes) := []
  deriving DecidableEq, Repr

namespace ShapeTable

def size (t : ShapeTable) : Nat :=
  t.entries.length

def source? (t : ShapeTable) (shape : Bytes) : Option Bytes :=
  t.entries.lookup shape

def register (t : ShapeTable) (p : Pattern) : Except DuplicateRoute ShapeTable :=
  match t.source? p.shape with
  | some source => .error ⟨p.source, source⟩
  | none => .ok { entries := (p.shape, p.source) :: t.entries }

end ShapeTable

/-! ## Drafts -/

/-- The routes that a router is to have, in the order in which they were added. -/
structure Draft (α : Type) where
  config : IndexConfig := {}
  shapes : ShapeTable := {}
  routes : List (Route α) := []

namespace Draft

variable {α : Type}

def size (d : Draft α) : Nat :=
  d.routes.length

def add (d : Draft α) (p : Pattern) (value : α) : Except DuplicateRoute (Draft α) := do
  let shapes ← d.shapes.register p
  return { d with shapes, routes := d.routes ++ [⟨p, value⟩] }

def addInput (d : Draft α) (input : PatternInput) (value : α) : Except RouteError (Draft α) :=
  match input.read with
  | .error e => .error (.invalid e)
  | .ok p => (d.add p value).mapError .duplicate

def addSource (d : Draft α) (source : Bytes) (value : α) : Except RouteError (Draft α) :=
  d.addInput (.source source) value

/-- Tries to add a route. A refused route leaves the draft as it is. -/
def attempt (d : Draft α) (input : PatternInput) (value : α) : Draft α :=
  match d.addInput input value with
  | .ok d' => d'
  | .error _ => d

def addAll (d : Draft α) (calls : List (PatternInput × α)) : Draft α :=
  calls.foldl (fun d call => d.attempt call.1 call.2) d

/-- The routes, those to be preferred first. `prefers a b` tells that `a` is to be preferred to `b`,
and routes of which none is preferred stay in the order in which they were added. -/
def ranked (d : Draft α) (prefers : Route α → Route α → Bool) : List (Route α) :=
  d.routes.mergeSort fun a b => !prefers b a

/-! ### Additions in place -/

/-- Remembers the shape of a pattern in the draft that is changed, unless it is there already. -/
def registerInPlace (p : Pattern) : EStateM RouteError (Draft α) Unit := fun d =>
  match d.shapes.source? p.shape with
  | some source => .error (.duplicate ⟨p.source, source⟩) d
  | none => .ok () { d with shapes := { entries := (p.shape, p.source) :: d.shapes.entries } }

/-- Adds a route to the draft that is changed: first its shape, and then the route itself. A refusal
leaves the draft as it is at that moment. -/
def addInPlace (input : PatternInput) (value : α) : EStateM RouteError (Draft α) Unit := do
  let p ← ofExcept (input.read.mapError .invalid)
  registerInPlace p
  modify fun d => { d with routes := d.routes ++ [⟨p, value⟩] }

end Draft

end RouteTable
