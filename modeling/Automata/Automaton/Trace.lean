import Automata.Automaton.Basic

/-!
# Traces

A trace hands out the states of a run one at a time: first the state it starts in, then the state
after each symbol, then nothing for ever. A symbol whose step meets a fault is used up and leaves
the state as it was.
-/

namespace Automata

/-- How far the states of a run have been handed out. -/
inductive Trace (S Q : Type) where
  /-- Nothing has been handed out. -/
  | fresh (state : Q) (word : List S)
  /-- The state has been handed out, the word is still to be read. -/
  | running (state : Q) (word : List S)
  /-- Everything has been handed out. -/
  | finished

namespace Trace

variable {S Q : Type} [Indexed S] [Indexed Q]

/-- Hands out the next state of the run. -/
def next (a : Automaton S Q) : Trace S Q → Checked (Option Q) × Trace S Q
  | .fresh q word => (.ok (some q), .running q word)
  | .running q (s :: word) =>
    match a.step q s with
    | .ok r => (.ok (some r), .running r word)
    | .error fault => (.error fault, .running q word)
  | .running _ [] => (.ok none, .finished)
  | .finished => (.ok none, .finished)

/-- The answers to the next `n` requests. -/
def take (a : Automaton S Q) : Nat → Trace S Q → List (Checked (Option Q))
  | 0, _ => []
  | n + 1, t => (t.next a).1 :: take a n (t.next a).2

end Trace

end Automata
