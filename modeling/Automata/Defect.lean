import Automata.Indexed

/-!
# Defects

A description of an automaton can be incomplete, contradictory or of the wrong size. Such a defect
is found when the automaton is built, and an automaton that was built has none. A defect names the
states and symbols it is about.
-/

namespace Automata

/-- What can be wrong with a description of an automaton. -/
inductive Defect (S Q : Type) where
  /-- No state was named to start in. -/
  | missingStart
  /-- No rule covers the pair. -/
  | missingTransition (state : Q) (symbol : S)
  /-- Two rules give the pair different successors. -/
  | conflictingTransition (state : Q) (symbol : S) (first second : Q)
  /-- A list of successors does not have one entry for each pair. -/
  | tableSize (expected actual : Nat)
  /-- There is no state with this number. -/
  | stateOutOfRange (index count : Nat)
  /-- There are too many states for successors of 32 bits. -/
  | stateSpaceTooLarge (count : Nat)
  deriving DecidableEq

/-- The text of a defect. -/
def Defect.message {S Q : Type} [Indexed S] [Indexed Q] : Defect S Q → String
  | .missingStart => "no start state was given"
  | .missingTransition state symbol =>
    s!"no transition from state {describe state} on symbol {describe symbol}"
  | .conflictingTransition state symbol first second =>
    s!"conflicting transitions from state {describe state} on symbol {describe symbol}: " ++
      s!"{describe first} vs {describe second}"
  | .tableSize expected actual =>
    s!"transition table has {actual} entries, expected {expected}"
  | .stateOutOfRange index count =>
    s!"state index {index} out of range for state space of size {count}"
  | .stateSpaceTooLarge count =>
    s!"state space of size {count} does not fit into a transition table"

/-- Why a description did not become an automaton: it is defective, or reading it met a fault. -/
inductive Failure (S Q : Type) where
  | defect (d : Defect S Q)
  | fault (f : Fault)
  deriving DecidableEq

/-- A description may be found defective. -/
instance {S Q : Type} : MonadLift (Except (Defect S Q)) (Except (Failure S Q)) where
  monadLift x := x.mapError .defect

/-- Reading a description may meet a fault. -/
instance {S Q : Type} : MonadLift (Except Fault) (Except (Failure S Q)) where
  monadLift x := x.mapError .fault

end Automata
