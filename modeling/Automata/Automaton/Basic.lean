import Automata.Log
import Automata.StateSet
import Automata.Table.Basic

/-!
# Deterministic finite automata

An automaton has a state to start in, a set of terminal states, and a successor for every pair of
a state and a symbol. Successors are read from a table or computed when they are asked for, and
the two are used alike through `Transition.apply`. A computed successor may meet a fault at some
pairs; a run meets it exactly when it comes to such a pair.
-/

namespace Automata

/-- A transition function: tabulated, or computed on demand. -/
inductive Transition (S Q : Type) [Indexed S] [Indexed Q] where
  | tabulated (table : Table S Q)
  | computed (f : Q → S → Checked Q)

namespace Transition

variable {S Q : Type} [Indexed S] [Indexed Q]

/-- The successor of a state on a symbol. -/
def apply : Transition S Q → Q → S → Checked Q
  | .tabulated table => table.get
  | .computed f => f

/-- Whether the successors are in a table. -/
def isTabulated : Transition S Q → Bool
  | .tabulated _ => true
  | .computed _ => false

end Transition

/-- A deterministic finite automaton over the symbols `S` with the states `Q`. -/
structure Automaton (S Q : Type) [Indexed S] [Indexed Q] where
  start : Q
  terminal : StateSet Q
  transition : Transition S Q

namespace Automaton

variable {S Q : Type} [Indexed S] [Indexed Q]

/-- Makes an automaton and writes it to the log. -/
def make {ε : Type} (start : Q) (terminal : StateSet Q) (transition : Transition S Q) :
    Logged ε (Automaton S Q) := do
  record (.automaton (describe start) terminal.len (Indexed.count Q) (Indexed.count S)
    transition.isTabulated)
  return ⟨start, terminal, transition⟩

/-- The automaton with a complete transition table. -/
def ofTable {ε : Type} (start : Q) (terminal : StateSet Q) (table : Table S Q) :
    Logged ε (Automaton S Q) :=
  make start terminal (.tabulated table)

/-- The automaton with a computed transition function. The terminal states are found once, by
asking the predicate about every state. -/
def ofFunction (start : Q) (isTerminal : Q → Bool) (f : Q → S → Checked Q) :
    Logged Fault (Automaton S Q) := do
  make start (← StateSet.ofPredicate isTerminal) (.computed f)

/-- The state with the given number, as part of a description. -/
def stateAt (i : Nat) : Except (Failure S Q) Q :=
  if i < Indexed.count Q then (ofIndex i : Checked Q)
  else throw (.defect (.stateOutOfRange i (Indexed.count Q)))

/-- Reads the numbers of the start state, of the terminal states, and of the successors row by row.
Of several defects the first is reported in this order: a state space that is too large, the start
state, the terminal states, the successors. -/
def readIndices (start : Nat) (terminal successors : List Nat) :
    Except (Failure S Q) (Automaton S Q) := do
  Table.requireFits S Q
  let start : Q ← stateAt (S := S) start
  let terminal : List Q ← terminal.mapM (stateAt (S := S))
  let table ← (Table.ofIndices successors : Except (Defect S Q) (Table S Q))
  return ⟨start, ← StateSet.ofList terminal, .tabulated table⟩

/-- The automaton that is described by numbers. -/
def ofIndices (start : Nat) (terminal successors : List Nat) :
    Logged (Failure S Q) (Automaton S Q) := do
  let a ← (readIndices start terminal successors : Except (Failure S Q) (Automaton S Q))
  make a.start a.terminal a.transition

/-- The same automaton started in another state. -/
def withStart (a : Automaton S Q) (q : Q) : Automaton S Q := { a with start := q }

/-- Whether a run that ends in the state is accepted. -/
def isTerminal (a : Automaton S Q) (q : Q) : Checked Bool := a.terminal.contains q

/-- Whether the successors are in a table. -/
def isTabulated (a : Automaton S Q) : Bool := a.transition.isTabulated

/-- The successor of a state on a symbol. -/
def step (a : Automaton S Q) (q : Q) (s : S) : Checked Q := a.transition.apply q s

/-- The state reached from `q` by reading a word from left to right. -/
def run (a : Automaton S Q) (q : Q) : List S → Checked Q
  | [] => .ok q
  | s :: word =>
    match a.step q s with
    | .ok r => a.run r word
    | .error fault => .error fault

/-- Whether the word leads from the start state to a terminal state. -/
def accepts (a : Automaton S Q) (word : List S) : Checked Bool := do
  a.isTerminal (← a.run a.start word)

/-- The successors of every state, state by state and symbol by symbol. -/
def successors (a : Automaton S Q) : Checked (List (List Q)) := do
  let symbols ← Indexed.all S
  (← Indexed.all Q).mapM fun q => symbols.mapM (a.step q)

/-- The automaton with its successors in a table. They are computed for all pairs, whether a run
comes to them or not; a table that is already there is kept. -/
def tabulate (a : Automaton S Q) : Logged Fault (Automaton S Q) :=
  match a.transition with
  | .tabulated _ => return a
  | .computed f => do
    record (.tabulate (Indexed.count Q) (Indexed.count S))
    ofTable a.start a.terminal (← Table.ofFunction f)

/-- The text of an automaton. -/
def describe (a : Automaton S Q) : Checked String := do
  let terminal ← a.terminal.describe
  return s!"Dfa \x7b start: {Indexed.describe a.start}, terminal: {terminal}, " ++
    s!"states: {Indexed.count Q}, symbols: {Indexed.count S}, " ++
    s!"materialized: {Indexed.describe a.isTabulated} \x7d"

end Automaton

end Automata
