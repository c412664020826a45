import Automata.Indexed
import Automata.Journal

/-!
# The log

Building and combining automata, searching them and running batches leave a log. A record says
what was done and shows the numbers it was done with; its level says how much detail a reader has
to ask for to see it. Only the visits of a search are finer than debugging.
-/

namespace Automata

/-- How much detail a record belongs to, coarse to fine. -/
inductive Level where
  | info
  | debug
  | trace
  deriving DecidableEq, Repr

namespace Level

/-- The rank of a level: the finer, the higher. -/
def rank : Level → Nat
  | .info => 0
  | .debug => 1
  | .trace => 2

/-- The tag that opens a written record. -/
def tag : Level → String
  | .info => "INFO"
  | .debug => "DEBUG"
  | .trace => "TRACE"

/-- A text of a level as it is written: the tag of the level and the text. -/
def line (level : Level) (text : String) : String := level.tag ++ " " ++ text

end Level

/-- The ways of combining two automata into one on pairs of states. -/
inductive Pairing where
  | intersect
  | union
  | difference
  | symmetricDifference
  deriving DecidableEq, Repr

/-- The name of a combination in the log. -/
def Pairing.name : Pairing → String
  | .intersect => "intersect"
  | .union => "union"
  | .difference => "difference"
  | .symmetricDifference => "symmetric_difference"

/-- The two questions that are asked of a batch of words. -/
inductive BatchQuery where
  | accepts
  | run
  deriving DecidableEq, Repr

/-- The name of a batch question in the log. -/
def BatchQuery.name : BatchQuery → String
  | .accepts => "accepts_batch"
  | .run => "run_batch"

/-- What is written to the log. States and symbols are kept as their texts. -/
inductive Record where
  /-- An automaton was made. -/
  | automaton (start : String) (terminal states symbols : Nat) (tabulated : Bool)
  /-- An automaton is complemented. -/
  | complement (start : String) (terminal : Nat)
  /-- Two automata are combined. -/
  | combine (pairing : Pairing) (leftStart : String) (leftTerminal : Nat)
      (rightStart : String) (rightTerminal : Nat)
  /-- A computed transition function is tabulated. -/
  | tabulate (states symbols : Nat)
  /-- A list of rules without conflict was read. -/
  | rules (distinct needed : Nat)
  /-- A draft is turned into an automaton. -/
  | build (start : Option String) (terminal rules : Nat)
  /-- The search for reachable states expands a state. -/
  | visiting (state : String)
  /-- The search for reachable states is complete. -/
  | reachable (found states : Nat)
  /-- The search for an accepted word found one. -/
  | witness (word : List String)
  /-- The search for an accepted word found none. -/
  | noWitness
  /-- A batch of words is evaluated. -/
  | batch (query : BatchQuery) (words : Nat) (parallel : Bool) (minLen : Nat)
  /-- A program reports how many words were accepted, but not how long that took. -/
  | tally (accepted words : Nat)
  deriving DecidableEq, Repr

namespace Record

/-- The level of a record. -/
def level : Record → Level
  | .visiting _ => .trace
  | .tally _ _ => .info
  | _ => .debug

/-- The text of a record. -/
def text : Record → String
  | .automaton start terminal states symbols tabulated =>
    s!"Dfa(start = {start}, |terminal| = {terminal}, |Q| = {states}, |S| = {symbols}, " ++
      s!"table = {describe tabulated})"
  | .complement start terminal => s!"complement(start = {start}, |terminal| = {terminal})"
  | .combine pairing leftStart leftTerminal rightStart rightTerminal =>
    s!"{pairing.name}(left.start = {leftStart}, |left.terminal| = {leftTerminal}, " ++
      s!"right.start = {rightStart}, |right.terminal| = {rightTerminal})"
  | .tabulate states symbols => s!"materialize(|Q| = {states}, |S| = {symbols})"
  | .rules distinct needed => s!"from_rules: {distinct} distinct rules, {needed} needed"
  | .build none terminal given =>
    s!"build(start = None, |terminal| = {terminal}, {given} rules)"
  | .build (some start) terminal given =>
    s!"build(start = Some({start}), |terminal| = {terminal}, {given} rules)"
  | .visiting state => s!"reachable: visiting {state}"
  | .reachable found states => s!"reachable_states: {found} of {states}"
  | .witness word => "shortest_accepted: [" ++ ", ".intercalate word ++ "]"
  | .noWitness => "shortest_accepted: language is empty"
  | .batch query words parallel minLen =>
    s!"{query.name}(|words| = {words}, config = BatchConfig \x7b parallel: {describe parallel}, " ++
      s!"min_len: {minLen} \x7d)"
  | .tally accepted words => s!"Accepted {accepted} of {words} words"

/-- Whether a reader who asks for `level` sees the record. -/
def shownAt (r : Record) (level : Level) : Bool := r.level.rank ≤ level.rank

/-- A record as it is written. -/
def line (r : Record) : String := r.level.line r.text

end Record

/-- A computation that leaves a log. -/
abbrev Logged (ε α : Type) : Type := Journal Record ε α

/-- Writes a record to the log. -/
def record {ε : Type} (r : Record) : Logged ε Unit := Journal.write r

end Automata
