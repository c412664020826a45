import Automata.Defect

/-!
# Transition tables

A table holds the successor of every pair of a state and a symbol, state by state, as a number of
32 bits. Its type says that no pair is left out. Narrowing the numbers loses nothing, because a
table is only made when there are few enough states; the test comes before any successor is
computed or read.
-/

namespace Automata

/-- A successor for every pair of a state and a symbol. -/
structure Table (S Q : Type) [Indexed S] [Indexed Q] where
  successors : Array UInt32
  size_successors : successors.size = Indexed.count Q * Indexed.count S
  deriving DecidableEq

namespace Table

variable {S Q : Type} [Indexed S] [Indexed Q]

/-- The largest state space that successors of 32 bits can number. -/
def maxStates : Nat := UInt32.size - 1

/-- The number of entries of a table. -/
def size (S Q : Type) [Indexed S] [Indexed Q] : Nat := Indexed.count Q * Indexed.count S

/-- Whether the state space is small enough for a table. -/
def fits (Q : Type) [Indexed Q] : Bool := Indexed.count Q ≤ maxStates

/-- Refuses state spaces that are too large for a table. -/
def requireFits (S Q : Type) [Indexed Q] : Except (Defect S Q) Unit :=
  if fits Q then .ok () else .error (.stateSpaceTooLarge (Indexed.count Q))

/-- Reads successor numbers as a table, if there is one for each pair. -/
def ofSuccessors (successors : Array UInt32) : Checked (Table S Q) :=
  if h : successors.size = Indexed.count Q * Indexed.count S then .ok ⟨successors, h⟩
  else .error (.lengthsDiffer successors.size (Indexed.count Q * Indexed.count S))

/-- Appends the successors of one state on the given symbols. -/
def appendRow (f : S → Checked Q) : List S → Array UInt32 → Checked (Array UInt32)
  | [], successors => .ok successors
  | s :: rest, successors => do
    let i ← index (← f s)
    appendRow f rest (successors.push i.toUInt32)

/-- Appends the rows of `n` states, the first of them having number `i`. -/
def appendRows (f : Q → S → Checked Q) (symbols : List S) :
    Nat → Nat → Array UInt32 → Checked (Array UInt32)
  | 0, _, successors => .ok successors
  | n + 1, i, successors => do
    let q ← ofIndex i
    appendRows f symbols n (i + 1) (← appendRow (f q) symbols successors)

/-- The table of a transition function. It is evaluated once for each pair, row by row, unless
the state space is too large; then it is not evaluated at all. -/
def ofFunction (f : Q → S → Checked Q) : Checked (Table S Q) := do
  if fits Q then
    ofSuccessors (← appendRows f (← Indexed.all S) (Indexed.count Q) 0 #[])
  else throw (.untabulable (Indexed.count Q))

/-- The table with the given successor numbers, row by row. Of several defects the first number
that is out of range is reported, and the length last. -/
def ofIndices (successors : List Nat) : Except (Defect S Q) (Table S Q) := do
  requireFits S Q
  match successors.find? (Indexed.count Q ≤ ·) with
  | some i => throw (.stateOutOfRange i (Indexed.count Q))
  | none =>
    if h : successors.length = Indexed.count Q * Indexed.count S then
      return ⟨(successors.map Nat.toUInt32).toArray, by rw [List.size_toArray, List.length_map, h]⟩
    else throw (.tableSize (Indexed.count Q * Indexed.count S) successors.length)

/-- The successor of a state on a symbol. -/
def get (t : Table S Q) (q : Q) (s : S) : Checked Q := do
  let i ← cellIndex (← index q) (← index s) (Indexed.count S)
  match t.successors[i]? with
  | some r => ofIndex r.toNat
  | none => throw (.outOfBounds i t.successors.size)

/-- The number of entries. -/
def len (t : Table S Q) : Nat := t.successors.size

/-- Whether there is no entry. -/
def isEmpty (t : Table S Q) : Bool := t.successors.isEmpty

/-- All pairs with their successors, row by row. -/
def entries (t : Table S Q) : Checked (List (Q × S × Q)) := do
  let symbols ← Indexed.all S
  let rows ← (← Indexed.all Q).mapM fun q => symbols.mapM fun s => return (q, s, ← t.get q s)
  return rows.flatten

/-- The text of a table: its dimensions. -/
def describe (_ : Table S Q) : String :=
  s!"TransitionTable \x7b states: {Indexed.count Q}, symbols: {Indexed.count S} \x7d"

end Table

end Automata
