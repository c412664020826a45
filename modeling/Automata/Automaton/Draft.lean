import Automata.Table.Rules
import Automata.Automaton.Basic

/-!
# Drafts

A draft collects a start state, terminal states and rules in any order. Nothing is tested while it
grows: `Draft.build` turns it into an automaton or names its first defect. Default rules look at
the rules collected so far, so they fill what is open at that moment and nothing that comes later.
-/

namespace Automata

/-- An automaton under construction. -/
structure Draft (S Q : Type) where
  start? : Option Q
  terminal : Array Q
  rules : Array (Rule S Q)

namespace Draft

variable {S Q : Type}

/-- The draft that says nothing yet. -/
def empty : Draft S Q := ⟨none, #[], #[]⟩

/-- Names the start state; the last one named counts. -/
def start (d : Draft S Q) (q : Q) : Draft S Q := { d with start? := some q }

/-- Makes a state terminal. -/
def markTerminal (d : Draft S Q) (q : Q) : Draft S Q :=
  { d with terminal := d.terminal.push q }

/-- Makes several states terminal. -/
def markTerminals (d : Draft S Q) (states : List Q) : Draft S Q :=
  { d with terminal := d.terminal ++ states }

/-- Adds a rule. -/
def addRule (d : Draft S Q) (source : Q) (symbol : S) (target : Q) : Draft S Q :=
  { d with rules := d.rules.push ⟨source, symbol, target⟩ }

/-- Adds a rule to `target` for each of the given symbols, in order. -/
def addRules (d : Draft S Q) (source : Q) (symbols : List S) (target : Q) : Draft S Q :=
  { d with rules := d.rules ++ symbols.map fun s => Rule.mk source s target }

/-- The symbols for which `source` has a rule so far. -/
def covered [DecidableEq Q] (d : Draft S Q) (source : Q) : List S :=
  (d.rules.toList.filter fun r => r.source = source).map Rule.symbol

/-- Adds a rule to `target` for each symbol, in order, for which `source` has none so far. -/
def addDefault [DecidableEq S] [DecidableEq Q] [Indexed S] (d : Draft S Q) (source target : Q) :
    Checked (Draft S Q) := do
  let covered := d.covered source
  return d.addRules source ((← Indexed.all S).filter fun s => s ∉ covered) target

/-- Adds a rule to `target` for each symbol, in order, that satisfies the predicate. -/
def addWhere [Indexed S] (d : Draft S Q) (source : Q) (p : S → Bool) (target : Q) :
    Checked (Draft S Q) :=
  return d.addRules source ((← Indexed.all S).filter p) target

variable [Indexed S] [Indexed Q] [DecidableEq S] [DecidableEq Q] [Hashable S] [Hashable Q]

/-- The automaton that the draft describes. A missing start state is reported first, then what is
wrong with the rules. -/
def build (d : Draft S Q) : Logged (Failure S Q) (Automaton S Q) := do
  record (.build (d.start?.map describe) d.terminal.size d.rules.size)
  match d.start? with
  | none => throw (.defect .missingStart)
  | some start =>
    let table ← Table.ofRules d.rules.toList
    let terminal ← StateSet.ofList d.terminal.toList
    Automaton.ofTable start terminal table

end Draft

end Automata
