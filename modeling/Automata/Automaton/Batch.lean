import Automata.Automaton.Basic

/-!
# Batches

Many words are run independently of each other, so a batch can be cut into contiguous pieces that
are evaluated on their own, and the answers put together in order. The cut does not show in the
answers. A batch meets a fault when the run on one of its words does, the first in order.
-/

namespace Automata

/-- How a batch is evaluated. -/
structure BatchSettings where
  /-- Whether the batch may be cut into pieces. -/
  parallel : Bool := true
  /-- The number of words below which a piece is not made. -/
  minLen : Nat := 64
  deriving DecidableEq, Repr

/-- Evaluation in one piece. -/
def BatchSettings.sequential : BatchSettings := { parallel := false }

/-- A way of cutting a list into contiguous pieces. -/
inductive Splitting where
  | whole
  | cut (position : Nat) (left right : Splitting)

namespace Splitting

/-- Halves `n` words as long as both halves have `minLen` of them. -/
def halving (minLen : Nat) (n : Nat) : Splitting :=
  if 2 * max minLen 1 ≤ n then
    .cut (n / 2) (halving minLen (n / 2)) (halving minLen (n - n / 2))
  else .whole
termination_by n
decreasing_by all_goals omega

/-- Evaluates the pieces of a list one by one and puts their answers together. -/
def evaluate {α β : Type} (f : α → Checked β) : Splitting → List α → Checked (List β)
  | .whole, items => items.mapM f
  | .cut position left right, items =>
    return (← left.evaluate f (items.take position)) ++ (← right.evaluate f (items.drop position))

end Splitting

/-- How a pool of workers cuts a batch, given the length below which a piece is not made and the
number of words. -/
abbrev Schedule : Type := Nat → Nat → Splitting

/-- The way in which a batch of `n` words is cut. -/
def BatchSettings.splitting (settings : BatchSettings) (schedule : Schedule) (n : Nat) :
    Splitting :=
  if settings.parallel then schedule (max settings.minLen 1) n else .whole

namespace Automaton

variable {S Q : Type} [Indexed S] [Indexed Q]

/-- Evaluates a batch of words as its settings say. -/
def batch {β : Type} (query : BatchQuery) (f : List S → Checked β) (settings : BatchSettings)
    (schedule : Schedule) (words : List (List S)) : Logged Fault (List β) := do
  record (.batch query words.length settings.parallel settings.minLen)
  (settings.splitting schedule words.length).evaluate f words

/-- Whether each of the words is accepted, in order. -/
def acceptsBatch (a : Automaton S Q) (words : List (List S)) (settings : BatchSettings := {})
    (schedule : Schedule := Splitting.halving) : Logged Fault (List Bool) :=
  batch .accepts a.accepts settings schedule words

/-- The state in which the run on each of the words ends, in order. -/
def runBatch (a : Automaton S Q) (words : List (List S)) (settings : BatchSettings := {})
    (schedule : Schedule := Splitting.halving) : Logged Fault (List Q) :=
  batch .run (a.run a.start) settings schedule words

end Automaton

end Automata
