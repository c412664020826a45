/-!
# Faults

A fault is a use of the library that has no answer: an index without a value, an index that does
not fit into 64 bits, a set of the wrong universe. Each fault keeps the numbers that show why it
arose, and `Fault.message` is the one place that words them. Computations that can meet a fault
live in `Checked`, so the first fault ends a computation and nothing is computed after it.
-/

namespace Automata

/-- The reasons for which an operation has no answer. -/
inductive Fault where
  /-- The one value of the unit type has index zero only. -/
  | beyondUnit (index : Nat)
  /-- The type called `name` has no value with this index. -/
  | beyondNamed (name : String) (index : Nat)
  /-- A bounded number has to lie below its bound. -/
  | beyondBound (value bound : Nat)
  /-- A pair type with `count` values has no value with this index. -/
  | beyondPairs (index count : Nat)
  /-- A product of indices needs more than 64 bits. -/
  | multiplyOverflow
  /-- A sum of indices needs more than 64 bits. -/
  | addOverflow
  /-- The second component of a pair, or the column of a cell, has to lie below the width. -/
  | secondBeyondWidth (second width : Nat)
  /-- Rows of width zero hold no pair. -/
  | zeroWidth
  /-- A bit set holds only bits below its universe. -/
  | bitBeyondUniverse (bit extent : Nat)
  /-- Two bit sets combine only over one universe. -/
  | universesDiffer (left right : Nat)
  /-- Storage does not have the length that its type demands. -/
  | lengthsDiffer (left right : Nat)
  /-- Storage of this size has no entry at this position. -/
  | outOfBounds (position size : Nat)
  /-- A state space of this size does not fit into a transition table. -/
  | untabulable (states : Nat)
  deriving DecidableEq, Repr

/-- The text of a fault. -/
def Fault.message : Fault → String
  | .beyondUnit index =>
    s!"assertion `left == right` failed: Index {index} out of range for ()\n  left: {index}\n right: 0"
  | .beyondNamed name index => s!"Index {index} out of range for {name}"
  | .beyondBound value bound => s!"Value {value} out of range for Fin<{bound}>"
  | .beyondPairs index count => s!"Index {index} out of range for pair of size {count}"
  | .multiplyOverflow => "attempt to multiply with overflow"
  | .addOverflow => "attempt to add with overflow"
  | .secondBeyondWidth second width => s!"Second component {second} out of range 0..{width}"
  | .zeroWidth =>
    "assertion `left != right` failed: Width should not be zero\n  left: 0\n right: 0"
  | .bitBeyondUniverse bit extent => s!"Bit {bit} out of range for universe of size {extent}"
  | .universesDiffer left right =>
    s!"assertion `left == right` failed: Universe mismatch\n  left: {left}\n right: {right}"
  | .lengthsDiffer left right =>
    s!"assertion `left == right` failed\n  left: {left}\n right: {right}"
  | .outOfBounds position size =>
    s!"index out of bounds: the len is {size} but the index is {position}"
  | .untabulable states => s!"State space of size {states} does not fit into a transition table"

/-- A computation that ends in a value or in the first fault it met. -/
abbrev Checked (α : Type) : Type := Except Fault α

end Automata
