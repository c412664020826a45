import Automata.Automaton.Basic

/-!
# Boolean combinations

Languages are combined by combining their automata. Complement exchanges terminal and other
states. The other combinations run two automata side by side on pairs of states, and differ in the
pairs that are terminal: intersection carries the pairing, union and difference are expressed by
it and by complement, and the symmetric difference unites the terminal pairs of the two
differences. The pairs are not tabulated.
-/

namespace Automata

namespace Transition

variable {S Q M : Type} [Indexed S] [Indexed Q] [Indexed M]

/-- Steps both components of a pair on the same symbol, the left one first. -/
def pair (left : Transition S Q) (right : Transition S M) : Transition S (Q × M) :=
  .computed fun q s => return (← left.apply q.1 s, ← right.apply q.2 s)

end Transition

namespace Automaton

variable {S Q M : Type} [Indexed S] [Indexed Q] [Indexed M]

/-- Accepts the words that the automaton rejects. -/
def complement (a : Automaton S Q) : Logged Fault (Automaton S Q) := do
  record (.complement (Indexed.describe a.start) a.terminal.len)
  make a.start a.terminal.complement a.transition

/-- Writes to the log that two automata are combined. -/
def recordCombine (pairing : Pairing) (a : Automaton S Q) (b : Automaton S M) :
    Logged Fault Unit :=
  record (.combine pairing (Indexed.describe a.start) a.terminal.len
    (Indexed.describe b.start) b.terminal.len)

/-- Accepts the words that both automata accept: both have to end in a terminal state. -/
def intersect (a : Automaton S Q) (b : Automaton S M) : Logged Fault (Automaton S (Q × M)) := do
  recordCombine .intersect a b
  make (a.start, b.start) (← a.terminal.product b.terminal) (a.transition.pair b.transition)

/-- Accepts the words that one of the automata accepts or both, by De Morgan's law. -/
def union (a : Automaton S Q) (b : Automaton S M) : Logged Fault (Automaton S (Q × M)) := do
  recordCombine .union a b
  let neither ← (← a.complement).intersect (← b.complement)
  neither.complement

/-- Accepts the words that the first automaton accepts and the second rejects. -/
def difference (a : Automaton S Q) (b : Automaton S M) : Logged Fault (Automaton S (Q × M)) := do
  recordCombine .difference a b
  a.intersect (← b.complement)

/-- Accepts the words that exactly one of the automata accepts. -/
def symmetricDifference (a : Automaton S Q) (b : Automaton S M) :
    Logged Fault (Automaton S (Q × M)) := do
  recordCombine .symmetricDifference a b
  let inLeft ← a.intersect (← b.complement)
  let inRight ← (← a.complement).intersect b
  make inLeft.start (← inLeft.terminal.union inRight.terminal) inLeft.transition

instance : HAnd (Automaton S Q) (Automaton S M) (Logged Fault (Automaton S (Q × M))) :=
  ⟨intersect⟩

instance : HOr (Automaton S Q) (Automaton S M) (Logged Fault (Automaton S (Q × M))) := ⟨union⟩

instance : HSub (Automaton S Q) (Automaton S M) (Logged Fault (Automaton S (Q × M))) :=
  ⟨difference⟩

instance : HXor (Automaton S Q) (Automaton S M) (Logged Fault (Automaton S (Q × M))) :=
  ⟨symmetricDifference⟩

end Automaton

end Automata
