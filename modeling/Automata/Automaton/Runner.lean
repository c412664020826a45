import Automata.Automaton.Basic

/-!
# Runs in pieces

A runner holds the state of a run whose word arrives piece by piece, and counts the symbols it has
read. A piece read with `feed` is read whole or not at all; `extend` reads symbol by symbol and
keeps what it read before a fault. The count is an index, so there is a limit to it: a runner that
has come to the limit can still move, and it meets its fault when it counts.
-/

namespace Automata

/-- A run in progress. -/
structure Runner (S Q : Type) [Indexed S] [Indexed Q] where
  automaton : Automaton S Q
  state : Q
  consumed : Nat

namespace Runner

variable {S Q : Type} [Indexed S] [Indexed Q]

/-- The run that starts in the given state. -/
def ofState (a : Automaton S Q) (q : Q) : Runner S Q := ⟨a, q, 0⟩

/-- The run that starts in the start state. -/
def ofStart (a : Automaton S Q) : Runner S Q := ofState a a.start

/-- Moves to the state that reading leads to, and then counts the symbols that were read. What is
left of the runner when this meets a fault is given beside the fault. -/
def move (r : Runner S Q) (next : Checked Q) (symbols : Nat) : Runner S Q × Option Fault :=
  match next with
  | .error fault => (r, some fault)
  | .ok q =>
    match addIndex r.consumed symbols with
    | .error fault => ({ r with state := q }, some fault)
    | .ok consumed => ({ r with state := q, consumed := consumed }, none)

/-- Reads one symbol, and gives what is left when this meets a fault. -/
def pushed (r : Runner S Q) (s : S) : Runner S Q × Option Fault :=
  r.move (r.automaton.step r.state s) 1

/-- Reads a piece of the word, and gives what is left when this meets a fault. -/
def fed (r : Runner S Q) (piece : List S) : Runner S Q × Option Fault :=
  r.move (r.automaton.run r.state piece) piece.length

/-- The runner that a call gives, unless it meets a fault. -/
def settled : Runner S Q × Option Fault → Checked (Runner S Q)
  | (r, none) => .ok r
  | (_, some fault) => .error fault

/-- Reads one symbol. -/
def push (r : Runner S Q) (s : S) : Checked (Runner S Q) := settled (r.pushed s)

/-- Reads a piece of the word. -/
def feed (r : Runner S Q) (piece : List S) : Checked (Runner S Q) := settled (r.fed piece)

/-- Reads symbols one by one up to the first that meets a fault, which is returned. -/
def extend (r : Runner S Q) : List S → Runner S Q × Option Fault
  | [] => (r, none)
  | s :: rest =>
    match r.pushed s with
    | (r', none) => r'.extend rest
    | (r', some fault) => (r', some fault)

/-- Returns to the start state and forgets what was read. -/
def reset (r : Runner S Q) : Runner S Q := ofStart r.automaton

/-- Whether the run would be accepted if it ended now. -/
def isAccepting (r : Runner S Q) : Checked Bool := r.automaton.isTerminal r.state

end Runner

end Automata
