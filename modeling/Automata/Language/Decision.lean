import Automata.Automaton.Boolean
import Automata.Language.Search

/-!
# Questions about languages

Questions about all words are answered by searching the states of an automaton. Whether any word
is accepted is a question about reachable states; inclusion and equivalence ask it of a
combination of the two automata. A shortest accepted word is the one along which the search comes
to its first terminal state.
-/

namespace Automata.Automaton

variable {S Q M : Type} [Indexed S] [Indexed Q] [Indexed M]

/-- The states that some word leads to from the start state. -/
def reachableStates (a : Automaton S Q) : Logged Fault (StateSet Q) := do
  let (search, ending) ← Search.run a fun _ => .ok false
  Journal.writeAll (search.expanded.map fun q => .visiting (Indexed.describe q))
  match ending with
  | .failed fault => throw fault
  | _ =>
    record (.reachable search.visited.len (Indexed.count Q))
    return search.visited

/-- Whether no word is accepted. -/
def isEmpty (a : Automaton S Q) : Logged Fault Bool :=
  return !(← a.reachableStates).intersects a.terminal

/-- Whether every word is accepted. -/
def isUniversal (a : Automaton S Q) : Logged Fault Bool := do
  (← a.complement).isEmpty

/-- A shortest accepted word, if any word is accepted: of several the one that comes first when
symbols are compared by their numbers. -/
def shortestAccepted (a : Automaton S Q) : Logged Fault (Option (List S)) := do
  let (search, ending) ← Search.run a a.isTerminal
  match ending with
  | .failed fault => throw fault
  | .reached q =>
    let word ← search.wordTo q
    record (.witness (word.map Indexed.describe))
    return some word
  | .exhausted =>
    record .noWitness
    return none

/-- A shortest word that is not accepted, if there is one. -/
def shortestRejected (a : Automaton S Q) : Logged Fault (Option (List S)) := do
  (← a.complement).shortestAccepted

/-- Whether every word that the first automaton accepts is accepted by the second. -/
def isSubsetOf (a : Automaton S Q) (b : Automaton S M) : Logged Fault Bool := do
  (← a.difference b).isEmpty

/-- Whether the automata accept the same words. -/
def isEquivalentTo (a : Automaton S Q) (b : Automaton S M) : Logged Fault Bool := do
  (← a.symmetricDifference b).isEmpty

/-- A shortest word that exactly one of the automata accepts, if there is one. -/
def distinguishingWord (a : Automaton S Q) (b : Automaton S M) :
    Logged Fault (Option (List S)) := do
  (← a.symmetricDifference b).shortestAccepted

end Automata.Automaton
