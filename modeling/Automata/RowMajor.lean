import Automata.Fault

/-!
# Indices and row-major numbering

Indices and counts are 64-bit numbers, so a number that does not fit is a fault and not a wrapped
number. Pairs of indices are numbered row by row: `(first, second)` is cell `first * width + second`
of a grid whose rows hold `width` cells. The column is tested before anything is multiplied, then
the product, then the sum.
-/

namespace Automata

/-- Indices lie below this limit: they are numbers of 64 bits. -/
def indexLimit : Nat := UInt64.size

/-- The sum of two indices. -/
def addIndex (a b : Nat) : Checked Nat :=
  if a + b < indexLimit then .ok (a + b) else .error .addOverflow

/-- The number of the pair `(first, second)` when second components lie below `width`. -/
def pairIndex (first second width : Nat) : Checked Nat :=
  if second < width then
    if first * width < indexLimit then
      if first * width + second < indexLimit then
        .ok (first * width + second)
      else .error .addOverflow
    else .error .multiplyOverflow
  else .error (.secondBeyondWidth second width)

/-- The pair with the given number. -/
def unpairIndex (index width : Nat) : Checked (Nat × Nat) :=
  if width = 0 then .error .zeroWidth else .ok (index / width, index % width)

/-- The position of a cell in a grid that is stored row by row. -/
def cellIndex (row column columns : Nat) : Checked Nat :=
  pairIndex row column columns

end Automata
