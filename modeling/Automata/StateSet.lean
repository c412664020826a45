import Automata.Indexed
import Automata.BitSet.Iterator

/-!
# Sets of states

A set of states is a bit set over the numbers of the states, so its extent is the number of
states: that is the invariant of the type. Complements are taken within the whole state space.
Operations that number a state, or that combine two bit sets, are checked.
-/

namespace Automata

/-- A set of values of an indexed type. -/
structure StateSet (Q : Type) [Indexed Q] where
  bits : BitSet
  extent_bits : bits.extent = Indexed.count Q
  deriving DecidableEq

namespace StateSet

variable {Q M : Type} [Indexed Q] [Indexed M]

/-- Reads a bit set as a set of states, if it has one bit for each state. -/
def ofBits (bits : BitSet) : Checked (StateSet Q) :=
  if h : bits.extent = Indexed.count Q then .ok ⟨bits, h⟩
  else .error (.lengthsDiffer bits.extent (Indexed.count Q))

/-- The set without states. -/
def empty : StateSet Q := ⟨.empty (Indexed.count Q), rfl⟩

/-- The set of all states. -/
def full : StateSet Q := ⟨.full (Indexed.count Q), rfl⟩

/-- Whether a state belongs to the set. -/
def contains (s : StateSet Q) (q : Q) : Checked Bool :=
  return s.bits.contains (← index q)

/-- Adds a state, and tells whether it was missing. -/
def insert (s : StateSet Q) (q : Q) : Checked (Bool × StateSet Q) := do
  let (fresh, bits) ← s.bits.insert (← index q)
  return (fresh, ← ofBits bits)

/-- Removes a state, and tells whether it was there. -/
def remove (s : StateSet Q) (q : Q) : Checked (Bool × StateSet Q) := do
  let (held, bits) := s.bits.remove (← index q)
  return (held, ← ofBits bits)

/-- Adds states in order up to the first that meets a fault, which is returned. -/
def extend (s : StateSet Q) : List Q → StateSet Q × Option Fault
  | [] => (s, none)
  | q :: rest =>
    match s.insert q with
    | .ok (_, t) => t.extend rest
    | .error fault => (s, some fault)

/-- The set of the listed states. -/
def ofList (states : List Q) : Checked (StateSet Q) :=
  match (empty : StateSet Q).extend states with
  | (s, none) => .ok s
  | (_, some fault) => .error fault

/-- The set of the states that satisfy a predicate. -/
def ofPredicate (p : Q → Bool) : Checked (StateSet Q) := do
  ofList ((← Indexed.all Q).filter p)

/-- The number of states in the set. -/
def len (s : StateSet Q) : Nat := s.bits.len

/-- Whether no state is in the set. -/
def isEmpty (s : StateSet Q) : Bool := s.bits.isEmpty

/-- The states that are not in the set. -/
def complement (s : StateSet Q) : StateSet Q := ⟨s.bits.complement, s.extent_bits⟩

/-- The states that are in both sets. -/
def intersection (s t : StateSet Q) : Checked (StateSet Q) := do
  ofBits (← s.bits.intersection t.bits)

/-- The states that are in one of the sets or in both. -/
def union (s t : StateSet Q) : Checked (StateSet Q) := do
  ofBits (← s.bits.union t.bits)

/-- Whether the sets have a state in common. -/
def intersects (s t : StateSet Q) : Bool := s.bits.intersects t.bits

/-- The states of the set in the order of their numbers. -/
def toList (s : StateSet Q) : Checked (List Q) := s.bits.toList.mapM ofIndex

/-- The pairs of a state of the left and a state of the right set. -/
def product (s : StateSet Q) (t : StateSet M) : Checked (StateSet (Q × M)) := do
  let left ← s.toList
  let right ← t.toList
  ofList (left.flatMap fun q => right.map fun m => (q, m))

/-- The text of a set: its states in order, between braces. -/
def describe (s : StateSet Q) : Checked String := do
  let texts := (← s.toList).map Indexed.describe
  return "\x7b" ++ ", ".intercalate texts ++ "\x7d"

end StateSet

end Automata
