/-!
# Sets of positions

A set of positions below a capacity, kept as one bit each in words of 64 bits. Up to 64 positions
take a word in the set itself, and more of them take words of their own. Positions and capacities
are 32-bit words.

* `PositionSet.empty`, `PositionSet.reset`: the empty set of a given capacity
* `PositionSet.insert`, `PositionSet.contains`: adding and asking for a position
* `PositionSet.next?`: the smallest position of the set from a given one on
* `PositionSet.Search`: the search for it, turn by turn
* `PositionSet.toList`: the positions in increasing order
-/

namespace RouteTable

/-- A set of positions below `capacity`. A set without separate words answers for every position
with its inline word. -/
structure PositionSet where
  /-- The positions of the set are smaller. -/
  capacity : UInt32
  /-- The word of a set that has no others. -/
  inlineWord : UInt64 := 0
  /-- The words of a set that takes more than one. -/
  words : Array UInt64 := #[]
  deriving DecidableEq

namespace PositionSet

/-! ## Words -/

/-- The number of separate words of a set of the given capacity. Up to 64 positions there is none;
above that they are as many as it takes, counted in 32-bit arithmetic. -/
def separateWords (capacity : UInt32) : Nat :=
  if 64 < capacity then ((capacity + 63) / 64).toNat else 0

/-- The number of words, the inline word counting as one if there is no other. -/
def wordCount (s : PositionSet) : Nat :=
  if s.words.isEmpty then 1 else s.words.size

/-- The word with the bits of the positions from `64 * i` on. -/
def word (s : PositionSet) (i : Nat) : UInt64 :=
  if s.words.isEmpty then s.inlineWord else s.words.getD i 0

def wordOf (pos : UInt32) : Nat :=
  pos.toNat / 64

def bitOf (pos : UInt32) : UInt64 :=
  1 <<< (pos % 64).toUInt64

/-! ## Operations -/

def empty (capacity : UInt32) : PositionSet where
  capacity := capacity
  words := Array.replicate (separateWords capacity) 0

/-- Empties the set and gives it a capacity. Separate words are cleared and used again if their
number stays the same. -/
def reset (s : PositionSet) (capacity : UInt32) : PositionSet where
  capacity := capacity
  inlineWord := 0
  words :=
    if s.words.size = separateWords capacity then s.words.map fun _ => 0
    else Array.replicate (separateWords capacity) 0

def insert (s : PositionSet) (pos : UInt32) : PositionSet :=
  if s.words.isEmpty then { s with inlineWord := s.inlineWord ||| bitOf pos }
  else { s with words := s.words.modify (wordOf pos) (· ||| bitOf pos) }

/-- Whether a position is in the set. No position from the capacity on is. -/
def contains (s : PositionSet) (pos : UInt32) : Bool :=
  pos < s.capacity && s.word (wordOf pos) &&& bitOf pos != 0

/-! ## Search -/

/-- The number of the lowest bit of a word that is set, or 64 if there is none. -/
def lowestBit (w : UInt64) : Nat :=
  ((List.range 64).find? (w.toNat.testBit ·)).getD 64

/-- The position of the lowest bit that is set in `w`, the word number `i`. The greatest 32-bit word
stands for no position. -/
def position? (i : Nat) (w : UInt64) : Option UInt32 :=
  let pos := UInt32.ofNat (64 * i + lowestBit w)
  if pos = 0xFFFFFFFF then none else some pos

/-- The first position of the set that is in word number `i` or a later one. -/
def scan (s : PositionSet) (i : Nat) : Option UInt32 :=
  if i < s.wordCount then
    if s.word i = 0 then scan s (i + 1) else position? i (s.word i)
  else none
termination_by s.wordCount - i

/-- The first position of the set that is in a word after number `i`. A set without separate words
is done after word number 0, and after any other number it finds its inline word again. -/
def scanAfter (s : PositionSet) (i : Nat) : Option UInt32 :=
  if s.words.isEmpty then
    if i = 0 ∨ s.inlineWord = 0 then none else position? (i + 1) s.inlineWord
  else s.scan (i + 1)

def next? (s : PositionSet) (start : UInt32) : Option UInt32 :=
  if start < s.capacity then
    let i := wordOf start
    let w := s.word i &&& ((0 - 1) <<< (start % 64).toUInt64)
    if w = 0 then s.scanAfter i else position? i w
  else none

/-! ### The turns of a search -/

def word? (s : PositionSet) (i : UInt32) : Option UInt64 :=
  if i.toNat < s.wordCount then some (s.word i.toNat) else none

inductive Search where
  /-- These bits are left of word number `i`. -/
  | going (i : UInt32) (bits : UInt64)
  | done (answer : Option UInt32)
  /-- A word was asked for that the set does not have. -/
  | outside
  deriving DecidableEq, Repr

namespace Search

/-- The search for the first position from `pos` on. It begins with the bits of one word from that
of `pos` on. -/
def start (s : PositionSet) (pos : UInt32) : Search :=
  if pos < s.capacity then
    (s.word? (pos / 64)).elim outside fun w =>
      going (pos / 64) (w &&& (0 - 1) <<< (pos % 64).toUInt64)
  else done none

/-- One turn. If no bit is left, the next word is read, unless that was the last one. -/
def turn (s : PositionSet) : Search → Search
  | going i bits =>
    if bits = 0 then
      if (i + 1).toNat = s.wordCount then done none
      else (s.word? (i + 1)).elim outside (going (i + 1))
    else done (position? i.toNat bits)
  | search => search

end Search

/-! ## Positions -/

def toListFrom (s : PositionSet) (start : UInt32) : List UInt32 :=
  match s.next? start with
  | none => []
  | some pos =>
    if start ≤ pos ∧ pos < s.capacity then pos :: s.toListFrom (pos + 1) else [pos]
termination_by s.capacity.toNat - start.toNat
decreasing_by
  rename_i h
  have h₁ : start.toNat ≤ pos.toNat := h.1
  have h₂ : pos.toNat < s.capacity.toNat := h.2
  have h₃ : (pos + 1).toNat = pos.toNat + 1 := by
    have := s.capacity.toNat_lt
    rw [UInt32.toNat_add]
    exact Nat.mod_eq_of_lt (by simp only [UInt32.toNat_one]; omega)
  omega

def toList (s : PositionSet) : List UInt32 :=
  s.toListFrom 0

def isEmpty (s : PositionSet) : Bool :=
  (s.next? 0).isNone

end PositionSet

end RouteTable
