import Std.Data.HashMap
import Automata.Log
import Automata.Table.Basic

/-!
# Tables from rules

A rule gives the successor of one pair of a state and a symbol. A list of rules describes a table
when it is a total function: no two rules disagree, and every pair has one. Rules may come in any
order and more than once. A disagreement is reported before a state space that is too large, and
that before a pair without a rule.
-/

namespace Automata

/-- The rule that `source` moves to `target` on `symbol`. -/
structure Rule (S Q : Type) where
  source : Q
  symbol : S
  target : Q
  deriving DecidableEq

/-- The successors that a list of rules gives. -/
abbrev RuleMap (S Q : Type) [BEq S] [BEq Q] [Hashable S] [Hashable Q] : Type :=
  Std.HashMap (Q × S) Q

namespace RuleMap

variable {S Q : Type} [DecidableEq S] [DecidableEq Q] [Hashable S] [Hashable Q]

/-- Adds rules in order up to the first that disagrees with an earlier one. -/
def addAll (rules : RuleMap S Q) : List (Rule S Q) → Except (Defect S Q) (RuleMap S Q)
  | [] => .ok rules
  | r :: rest =>
    match rules[(r.source, r.symbol)]? with
    | some first =>
      if first = r.target then addAll rules rest
      else .error (.conflictingTransition r.source r.symbol first r.target)
    | none => addAll (rules.insert (r.source, r.symbol) r.target) rest

/-- The first pair without a rule among `n` states, the first of them having number `i`. -/
def gapFrom [Indexed Q] (rules : RuleMap S Q) (symbols : List S) :
    Nat → Nat → Checked (Option (Q × S))
  | 0, _ => .ok none
  | n + 1, i => do
    let q ← ofIndex i
    match symbols.find? fun s => !rules.contains (q, s) with
    | some s => return some (q, s)
    | none => gapFrom rules symbols n (i + 1)

/-- The first pair without a rule, row by row. -/
def gap? [Indexed S] [Indexed Q] (rules : RuleMap S Q) : Checked (Option (Q × S)) := do
  gapFrom rules (← Indexed.all S) (Indexed.count Q) 0

end RuleMap

namespace Table

variable {S Q : Type} [Indexed S] [Indexed Q] [DecidableEq S] [DecidableEq Q] [Hashable S]
  [Hashable Q]

/-- The table that a list of rules describes. When no pair is without a rule, the state that
stands in for a missing successor is never used. -/
def ofRules (rules : List (Rule S Q)) : Logged (Failure S Q) (Table S Q) := do
  let successors ← (∅ : RuleMap S Q).addAll rules
  record (.rules successors.size (size S Q))
  requireFits S Q
  match ← successors.gap? with
  | some (q, s) => throw (.defect (.missingTransition q s))
  | none => ofFunction fun q s => .ok (successors.getD (q, s) q)

end Table

end Automata
