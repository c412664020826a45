import Automata.Automaton.Basic

/-!
# Counting words

The accepted words of a length are counted by counting, for every state, the words of that length
that lead to it from the start state. Reading one more symbol moves the count of each state to its
successors. States that no word of the current length leads to are passed over, so their
successors are not computed.
-/

namespace Automata

/-- For the number of each state, how many words lead to it. -/
abbrev Ways : Type := Array Nat

namespace Ways

/-- No word leads to any of the states. -/
def zero (Q : Type) [Indexed Q] : Ways := Array.replicate (Indexed.count Q) 0

/-- The entry of the state with the given number. -/
def get (ways : Ways) (i : Nat) : Checked Nat :=
  match ways[i]? with
  | some n => .ok n
  | none => .error (.outOfBounds i ways.size)

/-- Adds `n` words to the entry of the state with the given number. -/
def add (ways : Ways) (i n : Nat) : Checked Ways :=
  if h : i < ways.size then .ok (ways.set i (ways[i] + n)) else .error (.outOfBounds i ways.size)

end Ways

namespace Automaton

variable {S Q : Type} [Indexed S] [Indexed Q]

/-- Only the empty word has length zero, and it leads to the start state. -/
def emptyWordWays (a : Automaton S Q) : Checked Ways := do
  (Ways.zero Q).add (← index a.start) 1

/-- Adds `n` words to the successor of `q` on each of the symbols. -/
def spreadFrom (a : Automaton S Q) (q : Q) (n : Nat) : List S → Ways → Checked Ways
  | [], next => .ok next
  | s :: rest, next => do
    a.spreadFrom q n rest (← next.add (← index (← a.step q s)) n)

/-- Moves the count of each of the states to its successors. -/
def spread (a : Automaton S Q) (symbols : List S) (ways : Ways) :
    List Q → Ways → Checked Ways
  | [], next => .ok next
  | q :: rest, next => do
    let n ← ways.get (← index q)
    if n = 0 then a.spread symbols ways rest next
    else a.spread symbols ways rest (← a.spreadFrom q n symbols next)

/-- The counts for words that are longer by `length` symbols. -/
def lengthen (a : Automaton S Q) (symbols : List S) (states : List Q) :
    Nat → Ways → Checked Ways
  | 0, ways => .ok ways
  | length + 1, ways => do
    a.lengthen symbols states length (← a.spread symbols ways states (Ways.zero Q))

/-- The number of accepted words of a length. -/
def countAccepted (a : Automaton S Q) (length : Nat) : Checked Nat := do
  let ways ← a.lengthen (← Indexed.all S) (← Indexed.all Q) length (← a.emptyWordWays)
  let counts ← (← a.terminal.toList).mapM fun q => do ways.get (← index q)
  return counts.foldl (· + ·) 0

end Automaton

end Automata
