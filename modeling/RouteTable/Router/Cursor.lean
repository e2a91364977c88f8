import RouteTable.Router.Basic

/-!
# Cursors over the matches of a path

A cursor goes through the routes that match a path, one at a time and in one direction. Candidates
are matched against the path only when the cursor gets to them.

* `Router.cursor`: the cursor before the first match
* `Cursor.start`: goes to the first match, unless the cursor has been started before
* `Cursor.advance`: goes to the next match
* `Cursor.take`: the next few matches
* `Sweep`: a cursor that keeps its place as a position and searches the set of candidates again
  behind it
* `Tour`, `Move`: iterators that share a sweep, and what is done with them
-/

namespace RouteTable

structure Cursor (α : Type) where
  router : Router α
  path : Bytes
  /-- The literal route that is the path, as long as it has not been reached. -/
  exact : Option UInt32
  /-- The candidates that have not been matched against the path yet. -/
  pending : List UInt32
  /-- The match at the cursor, or `none` before the first and after the last match. -/
  current : Option (Found α) := none
  started : Bool := false

variable {α : Type}

def Router.cursor (r : Router α) (path : Bytes) : Cursor α :=
  let c := r.candidates path (.empty 0)
  { router := r, path, exact := c.exact, pending := c.positions.toList }

namespace Cursor

def search (c : Cursor α) : List UInt32 → Cursor α
  | [] => { c with pending := [], current := none }
  | pos :: rest =>
    match c.router.matchAt? c.path pos with
    | some found => { c with pending := rest, current := some found }
    | none => c.search rest

/-- Goes to the next match. After the last match the cursor stays at the end. -/
def advance (c : Cursor α) : Cursor α :=
  match c.exact with
  | some pos => { c with exact := none, current := c.router.exactAt? pos }
  | none => c.search c.pending

/-- Goes to the first match. A cursor that has been started stays where it is. -/
def start (c : Cursor α) : Cursor α :=
  if c.started then c else { c.advance with started := true }

/-- The match at the cursor and those after it, up to a number of them. No candidate behind the last
of them is matched against the path. -/
def take (c : Cursor α) : Nat → List (Found α)
  | 0 => []
  | n + 1 =>
    match c.current with
    | none => []
    | some found => found :: c.advance.take n

end Cursor

/-! ## A place in the set of candidates -/

/-- A cursor over the routes of a router that match a path, which keeps the set of candidates as it
is and remembers where it goes on. -/
structure Sweep (α : Type) where
  router : Router α
  path : Bytes
  /-- The candidates. -/
  positions : PositionSet
  /-- The literal route that is the path, as long as it has not been reached. -/
  exact : Option UInt32
  /-- The candidate that is tried next, or `none` if there is no other. -/
  place : Option UInt32
  /-- The match at the sweep, or `none` before the first and after the last match. -/
  current : Option (Found α) := none
  started : Bool := false
  /-- The candidates that have been matched against the path, in this order. -/
  tried : List UInt32 := []

def Router.sweep (r : Router α) (path : Bytes) : Sweep α :=
  let c := r.candidates path (.empty 0)
  { router := r, path, positions := c.positions, exact := c.exact, place := c.positions.next? 0 }

namespace Sweep

def attempt (s : Sweep α) (pos : UInt32) : Sweep α :=
  { s with
    place := s.positions.next? (pos + 1)
    current := s.router.matchAt? s.path pos
    tried := s.tried ++ [pos] }

def search (s : Sweep α) : Sweep α :=
  match _ : s.place with
  | none => s
  | some pos =>
    if (s.attempt pos).current.isNone ∧ (s.attempt pos).place.all (pos < ·) then
      (s.attempt pos).search
    else s.attempt pos
termination_by s.place.elim 0 (UInt32.size - ·.toNat)
decreasing_by
  rename_i hplace h
  rw [hplace, Option.elim_some]
  have hlt := pos.toNat_lt_size
  cases hnext : (s.attempt pos).place with
  | none =>
    rw [Option.elim_none]
    omega
  | some next =>
    rw [hnext, Option.all_some, decide_eq_true_iff, UInt32.lt_iff_toNat_lt] at h
    rw [Option.elim_some]
    omega

/-- Goes to the next match. After the last match the sweep stays at the end. -/
def advance (s : Sweep α) : Sweep α :=
  match s.exact with
  | some pos => { s with exact := none, current := s.router.exactAt? pos }
  | none => { s with current := none }.search

/-- Goes to the first match. A sweep that has been started stays where it is. -/
def start (s : Sweep α) : Sweep α :=
  if s.started then s else { s with started := true }.advance

end Sweep

/-! ## Iterators -/

inductive Move where
  /-- Another iterator is obtained, and the sweep is started if it has not been. -/
  | begin
  /-- An iterator goes ahead and is returned. -/
  | next (iterator : Nat)
  /-- An iterator goes ahead and nothing is returned. -/
  | post (iterator : Nat)
  deriving DecidableEq, Repr

namespace Move

def isIncrement : Move → Bool
  | begin => false
  | next _ => true
  | post _ => true

/-- Whether all iterators that go ahead have been obtained before, if there are already some. -/
def Obtained (iterators : Nat) : List Move → Prop
  | [] => True
  | begin :: moves => Obtained (iterators + 1) moves
  | next i :: moves => i < iterators ∧ Obtained iterators moves
  | post i :: moves => i < iterators ∧ Obtained iterators moves

end Move

def Cursor.move (c : Cursor α) : Move → Cursor α
  | .begin => c.start
  | .next _ => c.advance
  | .post _ => c.advance

/-- A sweep with the iterators that have been obtained from it. They are numbered, and none has a
place of its own. -/
structure Tour (α : Type) where
  sweep : Sweep α
  iterators : Nat := 0

namespace Tour

def increment? (t : Tour α) (i : Nat) : Option (Tour α) :=
  if i < t.iterators then some { t with sweep := t.sweep.advance } else none

def move? (t : Tour α) : Move → Option (Tour α)
  | .begin => some { sweep := t.sweep.start, iterators := t.iterators + 1 }
  | .next i => t.increment? i
  | .post i => t.increment? i

def run? (t : Tour α) (moves : List Move) : Option (Tour α) :=
  moves.foldlM move? t

/-- The match that an iterator is at, or that it is at the end, if it has been obtained. -/
def seen? (t : Tour α) (i : Nat) : Option (Option (Found α)) :=
  if i < t.iterators then some t.sweep.current else none

end Tour

end RouteTable
