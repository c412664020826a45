import Automata.Indexed

/-!
# Shapes

A shape is a code for an indexed type that is built from the basic ones by forming pairs to any
depth. Programs that learn only at run time which alphabet and which state spaces they work on
hold a shape, and `Shape.Value` gives the type of its values.
-/

namespace Automata

/-- Codes of the basic indexed types and of pairs of them. -/
inductive Shape where
  | unit
  | bool
  | byte
  | fin (bound : Nat)
  | enumeration (e : Enumeration)
  | pair (first second : Shape)
  deriving DecidableEq, Inhabited, Repr

namespace Shape

/-- The values of a shape. -/
def Value : Shape → Type
  | .unit => Unit
  | .bool => Bool
  | .byte => UInt8
  | .fin n => Fin n
  | .enumeration e => e.Variant
  | .pair a b => a.Value × b.Value

/-- The numbering of the values, pairs row by row. -/
instance instIndexedValue : (s : Shape) → Indexed s.Value
  | .unit => inferInstanceAs (Indexed Unit)
  | .bool => inferInstanceAs (Indexed Bool)
  | .byte => inferInstanceAs (Indexed UInt8)
  | .fin n => inferInstanceAs (Indexed (Fin n))
  | .enumeration e => inferInstanceAs (Indexed e.Variant)
  | .pair a b =>
    have := instIndexedValue a
    have := instIndexedValue b
    inferInstanceAs (Indexed (a.Value × b.Value))

instance instDecidableEqValue : (s : Shape) → DecidableEq s.Value
  | .unit => inferInstanceAs (DecidableEq Unit)
  | .bool => inferInstanceAs (DecidableEq Bool)
  | .byte => inferInstanceAs (DecidableEq UInt8)
  | .fin n => inferInstanceAs (DecidableEq (Fin n))
  | .enumeration e => inferInstanceAs (DecidableEq e.Variant)
  | .pair a b =>
    have := instDecidableEqValue a
    have := instDecidableEqValue b
    inferInstanceAs (DecidableEq (a.Value × b.Value))

instance instHashableValue : (s : Shape) → Hashable s.Value
  | .unit => inferInstanceAs (Hashable Unit)
  | .bool => inferInstanceAs (Hashable Bool)
  | .byte => inferInstanceAs (Hashable UInt8)
  | .fin n => inferInstanceAs (Hashable (Fin n))
  | .enumeration e => inferInstanceAs (Hashable e.Variant)
  | .pair a b =>
    have := instHashableValue a
    have := instHashableValue b
    inferInstanceAs (Hashable (a.Value × b.Value))

end Shape

end Automata
