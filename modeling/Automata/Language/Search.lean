import Automata.Automaton.Basic

/-!
# Breadth-first search

The search starts in the start state and discovers states in the order of their distance from it,
those of one distance in the order of the words that lead to them. Discovered states are expanded
in the order of their discovery; each is discovered once, and its parent is the state and the
symbol it was discovered from. A search ends when no discovered state is left to expand, when a
state is reached that it is looking for, or with the fault of a successor. How far it came is kept
in every case.
-/

namespace Automata

/-- How far a search has come. -/
structure Search (S Q : Type) [Indexed Q] where
  /-- The discovered states. -/
  visited : StateSet Q
  /-- The discovered states in the order of their discovery. -/
  found : Array Q
  /-- How many of them have been taken up for expansion. -/
  taken : Nat
  /-- For the number of a state the state and the symbol it was discovered from. -/
  parent : Array (Option (Q × S))

namespace Search

/-- How a search ended. -/
inductive Ending (Q : Type) where
  /-- Every discovered state was expanded. -/
  | exhausted
  /-- A state was taken up that the search was looking for. -/
  | reached (q : Q)
  /-- A successor met a fault. -/
  | failed (fault : Fault)

variable {S Q : Type} [Indexed S] [Indexed Q]

/-- The search that has discovered the start state. -/
def init (start : Q) : Checked (Search S Q) := do
  let (_, visited) ← (StateSet.empty : StateSet Q).insert start
  return ⟨visited, #[start], 0, Array.replicate (Indexed.count Q) none⟩

/-- Stores the parent of the state with the given number. -/
def setParent (parent : Array (Option (Q × S))) (i : Nat) (edge : Q × S) :
    Checked (Array (Option (Q × S))) :=
  if h : i < parent.size then .ok (parent.set i (some edge))
  else .error (.outOfBounds i parent.size)

/-- Takes note of the successor `r` of `q` on `s`; only a new state changes anything. -/
def discover (t : Search S Q) (q : Q) (s : S) (r : Q) : Checked (Search S Q) := do
  let ⟨visited, found, taken, parent⟩ := t
  match ← visited.insert r with
  | (true, visited) => return ⟨visited, found.push r, taken, ← setParent parent (← index r) (q, s)⟩
  | (false, visited) => return ⟨visited, found, taken, parent⟩

/-- Discovers the successors of `q` on the given symbols, in order. -/
def expand (step : Q → S → Checked Q) (q : Q) :
    List S → Search S Q → Search S Q × Option Fault
  | [], t => (t, none)
  | s :: rest, t =>
    match step q s with
    | .error fault => (t, some fault)
    | .ok r =>
      match t.discover q s r with
      | .error fault => (t, some fault)
      | .ok t' => expand step q rest t'

/-- Takes up the next discovered state and expands it, unless the search was looking for it. A
state is tested before its successors are computed. -/
def advance (step : Q → S → Checked Q) (goal : Q → Checked Bool) (symbols : List S)
    (t : Search S Q) : Search S Q × Option (Ending Q) :=
  match t.found[t.taken]? with
  | none => (t, some .exhausted)
  | some q =>
    let t := { t with taken := t.taken + 1 }
    match goal q with
    | .error fault => (t, some (.failed fault))
    | .ok true => (t, some (.reached q))
    | .ok false =>
      match t.expand step q symbols with
      | (t, none) => (t, none)
      | (t, some fault) => (t, some (.failed fault))

/-- Advances until the search ends, at most `n` times before the states are taken as exhausted. -/
def explore (step : Q → S → Checked Q) (goal : Q → Checked Bool) (symbols : List S) :
    Nat → Search S Q → Search S Q × Ending Q
  | 0, t => (t, .exhausted)
  | n + 1, t =>
    match t.advance step goal symbols with
    | (t, none) => explore step goal symbols n t
    | (t, some ending) => (t, ending)

/-- Searches an automaton for a state that satisfies `goal`. No more states than there are can be
taken up. -/
def run (a : Automaton S Q) (goal : Q → Checked Bool) : Checked (Search S Q × Ending Q) := do
  return explore a.step goal (← Indexed.all S) (Indexed.count Q) (← init a.start)

/-- The states taken up so far, in order. -/
def expanded (t : Search S Q) : List Q := t.found.toList.take t.taken

/-- Follows the parents from `q` back to the start state, at most `n` of them, and puts the symbols
met on the way in front of `word`. -/
def trail (parent : Array (Option (Q × S))) : Nat → Q → List S → Checked (List S)
  | 0, _, word => .ok word
  | n + 1, q, word => do
    let i ← index q
    match parent[i]? with
    | some (some (p, s)) => trail parent n p (s :: word)
    | some none => return word
    | none => throw (.outOfBounds i parent.size)

/-- The word along which a state was discovered. -/
def wordTo (t : Search S Q) (q : Q) : Checked (List S) :=
  trail t.parent (Indexed.count Q) q []

end Search

end Automata
