import Automata.RowMajor

/-!
# Indexed types

The alphabets and state spaces of automata are types with finitely many values, numbered
`0, 1, …, count - 1`. Tables, bit sets and counting vectors are keyed by that number, so an
instance is a numbering in both directions. Both directions are checked: a number outside the
type has no value, and the number of a pair may be too large for an index.
-/

namespace Automata

/-- A numbering of the values of a type. -/
class Indexed (α : Type) where
  /-- How many values there are. -/
  count : Nat
  /-- The number of a value. -/
  index : α → Checked Nat
  /-- The value with a given number. -/
  ofIndex : Nat → Checked α
  /-- The text of a value in descriptions and messages. -/
  describe : α → String

export Indexed (index ofIndex describe)

/-- All values in the order of their numbers. -/
def Indexed.all (α : Type) [Indexed α] : Checked (List α) :=
  (List.range (count α)).mapM ofIndex

instance : Indexed Unit where
  count := 1
  index _ := .ok 0
  ofIndex i := if i = 0 then .ok () else .error (.beyondUnit i)
  describe _ := "()"

instance : Indexed Bool where
  count := 2
  index b := .ok b.toNat
  ofIndex i := if i < 2 then .ok (i == 1) else .error (.beyondNamed "bool" i)
  describe b := if b then "true" else "false"

instance : Indexed UInt8 where
  count := 256
  index b := .ok b.toNat
  ofIndex i := if i < 256 then .ok (UInt8.ofNat i) else .error (.beyondNamed "u8" i)
  describe b := toString b.toNat

/-- The bounded number with the given value. -/
def boundedNumber (bound value : Nat) : Checked (Fin bound) :=
  if h : value < bound then .ok ⟨value, h⟩ else .error (.beyondBound value bound)

/-- The short label of a bounded number, as of a state in a drawing. -/
def boundedLabel {n : Nat} (v : Fin n) : String := s!"q{v.val}"

instance (n : Nat) : Indexed (Fin n) where
  count := n
  index v := .ok v.val
  ofIndex := boundedNumber n
  describe v := s!"Fin({v.val})"

/-- Pairs are numbered row by row, the first component being the row. The number of a pair is
tested against the size of the pair type before the components are. -/
instance {α β : Type} [Indexed α] [Indexed β] : Indexed (α × β) where
  count := Indexed.count α * Indexed.count β
  index p := do pairIndex (← index p.1) (← index p.2) (Indexed.count β)
  ofIndex i := do
    if i < Indexed.count α * Indexed.count β then
      let (first, second) ← unpairIndex i (Indexed.count β)
      return (← ofIndex first, ← ofIndex second)
    else throw (.beyondPairs i (Indexed.count α * Indexed.count β))
  describe p := s!"({describe p.1}, {describe p.2})"

/-- An enumeration is a name and the names of its variants, in order. -/
structure Enumeration where
  name : String
  variants : Array String
  deriving DecidableEq, Repr

/-- A variant of an enumeration, given by its position. -/
structure Enumeration.Variant (e : Enumeration) where
  position : Fin e.variants.size
  deriving DecidableEq, Hashable

instance (e : Enumeration) : Indexed e.Variant where
  count := e.variants.size
  index v := .ok v.position.val
  ofIndex i :=
    if h : i < e.variants.size then .ok ⟨i, h⟩ else .error (.beyondNamed e.name i)
  describe v := e.variants[v.position]

end Automata
