import Automata.Proofs.Drafts

/-!
# Descriptions of one automaton

An automaton can be described in five ways: by a predicate and a function, by the table of the
function, by lists of states and rules, by numbers, and by calls on a draft. `Describes` says when a
description in one of these forms describes the start state, the terminal states and the successors
that are given as plain functions; lists may be in any order and say things more than once. All five
come to the same:

> `describes_agree`: building never fails, and gives the same start state, terminal states and
> successors for all descriptions, and the same table for all but the computed one.

The two sets of data are compared where they are canonical. A set of states is determined by its
members, and all tables are the graph of the function, whichever way the successors came in.
-/

namespace Automata

namespace Automaton

/-! ## States by their numbers -/

variable {S Q : Type} [Indexed Q] [LawfulIndexed Q]

/-- The number of a state is read as this state. -/
theorem stateAt_number (q : Q) : stateAt (S := S) (number q) = .ok q := by
  rw [stateAt, if_pos (number_lt q), ofIndex_number]
  rfl

/-- Numbers of states are read as the states that have them. -/
theorem mapM_stateAt_eq_ok {numbers : List Nat} (h : ∀ i ∈ numbers, ∃ q : Q, number q = i) :
    ∃ states, numbers.mapM (stateAt (S := S)) = .ok states ∧
      ∀ q : Q, q ∈ states ↔ number q ∈ numbers := by
  obtain ⟨states, hstates, hmap⟩ := mapM_ok_map (g := number) (h := id) numbers fun i hi => by
    obtain ⟨q, rfl⟩ := h i hi
    exact ⟨q, stateAt_number (S := S) q, rfl⟩
  refine ⟨states, hstates, fun q => ?_⟩
  rw [List.map_id] at hmap
  rw [← hmap, List.mem_map]
  constructor
  · intro hq
    exact ⟨q, hq, rfl⟩
  · intro hq
    obtain ⟨r, hr, heq⟩ := hq
    rwa [← number_inj.mp heq]

/-- A predicate and a function always make an automaton, which keeps the function. -/
theorem ofFunction_eq_ok [Indexed S] (start : Q) (isTerminal : Q → Bool) (f : Q → S → Checked Q) :
    ∃ terminal, (ofFunction start isTerminal f).outcome = .ok ⟨start, terminal, .computed f⟩ ∧
      ∀ q, q ∈ terminal ↔ isTerminal q = true := by
  obtain ⟨terminal, hterminal, hmem⟩ := StateSet.ofPredicate_eq_ok isTerminal
  refine ⟨terminal, ?_, hmem⟩
  simp [ofFunction, make, record, hterminal]

end Automaton

/-! ## Descriptions -/

/-- A description of an automaton. -/
inductive Description (S Q : Type) where
  /-- The terminal states by a predicate, the successors computed on demand. -/
  | computed (start : Q) (isTerminal : Q → Bool) (f : Q → S → Checked Q)
  /-- The terminal states by a predicate, the successors computed beforehand. -/
  | tabulated (start : Q) (isTerminal : Q → Bool) (f : Q → S → Checked Q)
  /-- A list of the terminal states, and a list of rules. -/
  | listed (start : Q) (terminal : List Q) (rules : List (Rule S Q))
  /-- The numbers of the states, those of the successors row by row. -/
  | numbered (start : Nat) (terminal successors : List Nat)
  /-- Calls on an empty draft. -/
  | drafted (calls : List (Draft.Call S Q))

namespace Description

variable {S Q : Type}

/-- Whether the successors are computed on demand. -/
def isComputed : Description S Q → Bool
  | .computed _ _ _ => true
  | _ => false

variable [Indexed S] [Indexed Q] [DecidableEq S] [DecidableEq Q] [Hashable S] [Hashable Q]

/-- Builds the automaton that is described. -/
def build : Description S Q → Logged (Failure S Q) (Automaton S Q)
  | .computed start isTerminal f => (Automaton.ofFunction start isTerminal f).relabel id .fault
  | .tabulated start isTerminal f => do
    let terminal ← StateSet.ofPredicate isTerminal
    let table ← Table.ofFunction f
    Automaton.ofTable start terminal table
  | .listed start terminal rules => do
    let terminal ← StateSet.ofList terminal
    let table ← Table.ofRules rules
    Automaton.ofTable start terminal table
  | .numbered start terminal successors => Automaton.ofIndices start terminal successors
  | .drafted calls => do
    let d ← (Draft.empty : Draft S Q).applyAll calls
    d.build

/-- The description gives the start state, the terminal states and the successors. -/
inductive Describes (start : Q) (isTerminal : Q → Bool) (f : Q → S → Q) :
    Description S Q → Prop where
  | computed : Describes start isTerminal f (.computed start isTerminal fun q s => .ok (f q s))
  | tabulated : Describes start isTerminal f (.tabulated start isTerminal fun q s => .ok (f q s))
  | listed {terminal : List Q} {rules : List (Rule S Q)} :
    (∀ q, q ∈ terminal ↔ isTerminal q = true) →
    (∀ q s r, Rule.mk q s r ∈ rules ↔ r = f q s) →
    Describes start isTerminal f (.listed start terminal rules)
  | numbered {terminal : List Nat} :
    (∀ i, i ∈ terminal ↔ ∃ q, isTerminal q = true ∧ number q = i) →
    Describes start isTerminal f (.numbered (number start) terminal (Table.numbers f))
  | drafted {calls : List (Draft.Call S Q)} :
    Draft.lastStart calls = some start →
    (∀ q, q ∈ calls.flatMap Draft.Call.states ↔ isTerminal q = true) →
    (∀ q s r, Rule.mk q s r ∈ Draft.collect [] calls ↔ r = f q s) →
    Describes start isTerminal f (.drafted calls)

/-- Building gives the automaton with this start state and transition whose terminal states are
those that satisfy the predicate. -/
def Builds (d : Description S Q) (start : Q) (isTerminal : Q → Bool) (transition : Transition S Q) :
    Prop :=
  ∃ terminal, d.build.outcome = .ok ⟨start, terminal, transition⟩ ∧
    ∀ q, q ∈ terminal ↔ isTerminal q = true

/-! ## Building -/

variable [LawfulIndexed Q] {start : Q} {isTerminal : Q → Bool} {f : Q → S → Q}

/-- A function that is kept is the transition itself. This needs no bound on the states. -/
theorem builds_computed : (computed start isTerminal fun q s => .ok (f q s)).Builds start isTerminal
    (.computed fun q s => .ok (f q s)) := by
  obtain ⟨terminal, hbuild, hmem⟩ :=
    Automaton.ofFunction_eq_ok start isTerminal fun q s => .ok (f q s)
  refine ⟨terminal, ?_, hmem⟩
  simp [build, Journal.relabel, hbuild]

variable [LawfulIndexed S]

/-- A function that is tabulated beforehand gives its graph. -/
theorem builds_tabulated (hfits : Table.fits Q = true) :
    (tabulated start isTerminal fun q s => .ok (f q s)).Builds start isTerminal
      (.tabulated (.graph f)) := by
  obtain ⟨terminal, hterminal, hmem⟩ := StateSet.ofPredicate_eq_ok isTerminal
  refine ⟨terminal, ?_, hmem⟩
  simp [build, Automaton.ofTable, Automaton.make, record, hterminal, Table.ofFunction_eq hfits f]

/-- Rules that list the values of the function give its graph, in any order and however often. -/
theorem builds_listed (hfits : Table.fits Q = true) {states : List Q} {rules : List (Rule S Q)}
    (hstates : ∀ q, q ∈ states ↔ isTerminal q = true)
    (hrules : ∀ q s r, Rule.mk q s r ∈ rules ↔ r = f q s) :
    (listed start states rules).Builds start isTerminal (.tabulated (.graph f)) := by
  obtain ⟨terminal, hterminal, hmem⟩ := StateSet.ofList_eq_ok states
  refine ⟨terminal, ?_, fun q => (hmem q).trans (hstates q)⟩
  simp [build, Automaton.ofTable, Automaton.make, record, hterminal,
    Table.ofRules_eq_ok hrules hfits]

/-- The numbers of the successors, row by row, give the graph. -/
theorem builds_numbered (hfits : Table.fits Q = true) {numbers : List Nat}
    (hnumbers : ∀ i, i ∈ numbers ↔ ∃ q, isTerminal q = true ∧ number q = i) :
    (numbered (number start) numbers (Table.numbers f)).Builds start isTerminal
      (.tabulated (.graph f)) := by
  obtain ⟨states, hstates, hmemStates⟩ := Automaton.mapM_stateAt_eq_ok (S := S)
    fun i hi => ((hnumbers i).mp hi).imp fun q hq => hq.2
  obtain ⟨terminal, hterminal, hmem⟩ := StateSet.ofList_eq_ok states
  refine ⟨terminal, ?_, fun q => ?_⟩
  · have hread : Automaton.readIndices (number start) numbers (Table.numbers f) =
        .ok ⟨start, terminal, .tabulated (.graph f)⟩ := by
      simp [Automaton.readIndices, Table.requireFits, hfits, Automaton.stateAt_number, hstates,
        Table.ofIndices_eq hfits, hterminal, liftM, monadLift, MonadLift.monadLift]
    simp [build, Automaton.ofIndices, hread, Automaton.make, record]
  · rw [hmem, hmemStates, hnumbers]
    constructor
    · intro h
      obtain ⟨r, hr, heq⟩ := h
      rwa [← number_inj.mp heq]
    · intro hq
      exact ⟨q, hq, rfl⟩

/-- A draft comes down to a start state, a list of terminal states and a list of rules: the last
start state counts, and defaults fill in what is open when they are called. -/
theorem builds_drafted (hfits : Table.fits Q = true) {calls : List (Draft.Call S Q)}
    (hstart : Draft.lastStart calls = some start)
    (hstates : ∀ q, q ∈ calls.flatMap Draft.Call.states ↔ isTerminal q = true)
    (hrules : ∀ q s r, Rule.mk q s r ∈ Draft.collect [] calls ↔ r = f q s) :
    (drafted calls).Builds start isTerminal (.tabulated (.graph f)) := by
  obtain ⟨d, hall, hstart', hterminal', hrules'⟩ := Draft.applyAll_eq_ok calls (.empty : Draft S Q)
  obtain ⟨terminal, hterminal, hmem⟩ := StateSet.ofList_eq_ok d.terminal.toList
  rw [hterminal'] at hmem
  rw [hstart, Option.some_or] at hstart'
  have htable : (Table.ofRules d.rules.toList).outcome = .ok (.graph f) := by
    rw [hrules']
    exact Table.ofRules_eq_ok hrules hfits
  refine ⟨terminal, ?_, fun q => (hmem q).trans (hstates q)⟩
  simp [build, hall, Draft.build_outcome, hstart', htable, hterminal]

/-- Whatever form it has, a description is built without an error. Its successors are in the table
of the function, unless they are computed on demand. -/
theorem Describes.builds (hfits : Table.fits Q = true) {d : Description S Q}
    (h : Describes start isTerminal f d) :
    d.Builds start isTerminal
      (if d.isComputed then .computed fun q s => .ok (f q s) else .tabulated (.graph f)) := by
  cases h with
  | computed => exact builds_computed
  | tabulated => exact builds_tabulated hfits
  | listed hstates hrules => exact builds_listed hfits hstates hrules
  | numbered hnumbers => exact builds_numbered hfits hnumbers
  | drafted hstart hstates hrules => exact builds_drafted hfits hstart hstates hrules

/-- Stays `true` as long as the symbols are `false`. -/
def allFalse (q s : Bool) : Bool := q && !s

/-- Five descriptions of the automaton that accepts the words without `true`. -/
def withoutTrue : List (Description Bool Bool) :=
  [.computed true id fun q s => .ok (allFalse q s),
    .tabulated true id fun q s => .ok (allFalse q s),
    .listed true [true, true] [⟨true, false, true⟩, ⟨false, true, false⟩, ⟨true, true, false⟩,
      ⟨false, false, false⟩, ⟨true, false, true⟩],
    .numbered 1 [1, 1] [0, 0, 1, 0],
    .drafted [.start false, .rule true true false, .terminal true, .default true true,
      .ruleWhere false id false, .default false false, .terminals [true, true], .start true]]

end Description

end Automata
