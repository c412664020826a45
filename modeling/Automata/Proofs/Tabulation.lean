import Automata.Automaton.Trace
import Automata.Language.Counting
import Automata.Proofs.Decisions

/-!
# Tabulation cannot be observed

A transition function that is computed on demand can be tabulated, and then successors are read
instead of computed. This file shows that nothing else changes: no run, no trace and no question
about languages, also not one about a combination with another automaton, tells an automaton from
the one with its table.

Most of it has nothing to do with tables. `Interchangeable` says that two automata start in the same
state, have the same terminal states and take the same steps; what is asked of an automaton goes
through these three, so each question has one lemma saying that interchangeable automata answer it
alike, faults included. The pairing of two transition functions even comes out the same, which
settles the comparisons. What is left for tables is that they hold all successors:

> `tabulate_indistinguishable`: a total automaton whose states are few enough is tabulated without a
> fault, and the automaton with the table is indistinguishable from it.
-/

namespace Automata

namespace Automaton

variable {S Q M : Type} [Indexed S] [Indexed Q] [Indexed M]

/-- The automata start in the same state, have the same terminal states, and take the same steps,
with the same faults. How they find their successors may differ. -/
structure Interchangeable (a b : Automaton S Q) : Prop where
  start_eq : b.start = a.start
  terminal_eq : b.terminal = a.terminal
  step_eq : ∀ q s, b.step q s = a.step q s

namespace Interchangeable

theorem refl (a : Automaton S Q) : a.Interchangeable a := ⟨rfl, rfl, fun _ _ => rfl⟩

variable {a b : Automaton S Q} {c d : Automaton S M}

/-- Whatever the transition functions are made of, as functions they are one and the same. -/
theorem apply_eq (h : a.Interchangeable b) : b.transition.apply = a.transition.apply :=
  funext fun q => funext fun s => h.step_eq q s

theorem isTerminal_eq (h : a.Interchangeable b) (q : Q) : b.isTerminal q = a.isTerminal q := by
  unfold isTerminal
  rw [h.terminal_eq]

/-! ## Runs and traces -/

/-- A word gets the same answer, or its run meets the same fault. -/
theorem accepts_eq (h : a.Interchangeable b) (word : List S) : b.accepts word = a.accepts word := by
  unfold accepts
  rw [h.start_eq, run_congr h.step_eq]
  exact congrArg (a.run a.start word >>= ·) (funext h.isTerminal_eq)

/-- A trace gives the same answer and stands at the same place afterwards. -/
theorem next_eq (h : a.Interchangeable b) (t : Trace S Q) : t.next b = t.next a := by
  cases t with
  | fresh q word => rfl
  | finished => rfl
  | running q word =>
    cases word with
    | nil => rfl
    | cons s word => simp only [Trace.next, h.step_eq]

theorem take_eq (h : a.Interchangeable b) : ∀ (n : Nat) (t : Trace S Q),
    Trace.take b n t = Trace.take a n t := by
  intro n
  induction n with
  | zero => intro t; rfl
  | succ n ih =>
    intro t
    unfold Trace.take
    rw [h.next_eq, ih]

/-! ## Searches -/

/-- A search sees the automaton through its start state and its steps only. So it expands the same
states in the same order and ends in the same way, whatever it looks for. -/
theorem search_eq (h : a.Interchangeable b) (goal : Q → Checked Bool) :
    Search.run b goal = Search.run a goal := by
  have hstep : b.step = a.step := h.apply_eq
  unfold Search.run
  rw [hstep, h.start_eq]

/-- The same states are found to be reachable, or both searches meet the same fault. -/
theorem reachableStates_eq (h : a.Interchangeable b) :
    b.reachableStates.outcome = a.reachableStates.outcome := by
  rw [reachableStates_outcome, reachableStates_outcome, h.search_eq]

/-- The same word is found. Here the search also asks which states are terminal. -/
theorem shortestAccepted_eq (h : a.Interchangeable b) :
    b.shortestAccepted.outcome = a.shortestAccepted.outcome := by
  have hgoal : b.isTerminal = a.isTerminal := funext h.isTerminal_eq
  rw [shortestAccepted_outcome, shortestAccepted_outcome, hgoal, h.search_eq]

theorem isEmpty_eq (h : a.Interchangeable b) : b.isEmpty.outcome = a.isEmpty.outcome := by
  rw [isEmpty_outcome, isEmpty_outcome, h.reachableStates_eq, h.terminal_eq]

/-- The complements are interchangeable as well. -/
theorem complement (h : a.Interchangeable b) :
    Interchangeable ⟨a.start, a.terminal.complement, a.transition⟩
      ⟨b.start, b.terminal.complement, b.transition⟩ :=
  ⟨h.start_eq, congrArg StateSet.complement h.terminal_eq, h.step_eq⟩

/-- Universality is a question about the complements, and these are interchangeable too. -/
theorem isUniversal_eq (h : a.Interchangeable b) :
    b.isUniversal.outcome = a.isUniversal.outcome := by
  simp only [isUniversal, Journal.outcome_bind, complement_outcome, ok_bind]
  exact h.complement.isEmpty_eq

theorem shortestRejected_eq (h : a.Interchangeable b) :
    b.shortestRejected.outcome = a.shortestRejected.outcome := by
  simp only [shortestRejected, Journal.outcome_bind, complement_outcome, ok_bind]
  exact h.complement.shortestAccepted_eq

/-! ## Counts -/

/-- One step of the count: the ways to a state are handed on to the same successors. -/
theorem spreadFrom_eq (h : a.Interchangeable b) (q : Q) (n : Nat) : ∀ (symbols : List S)
    (next : Ways), b.spreadFrom q n symbols next = a.spreadFrom q n symbols next := by
  intro symbols
  induction symbols with
  | nil => intro next; rfl
  | cons s symbols ih =>
    intro next
    unfold spreadFrom
    simp only [h.step_eq, ih]

theorem spread_eq (h : a.Interchangeable b) (symbols : List S) (ways : Ways) :
    ∀ (states : List Q) (next : Ways),
      b.spread symbols ways states next = a.spread symbols ways states next := by
  intro states
  induction states with
  | nil => intro next; rfl
  | cons q states ih =>
    intro next
    unfold spread
    simp only [h.spreadFrom_eq, ih]

/-- Step by step, the counts behind the states stay the same. -/
theorem lengthen_eq (h : a.Interchangeable b) (symbols : List S) (states : List Q) :
    ∀ (n : Nat) (ways : Ways),
      b.lengthen symbols states n ways = a.lengthen symbols states n ways := by
  intro n
  induction n with
  | zero => intro ways; rfl
  | succ n ih =>
    intro ways
    unfold lengthen
    simp only [h.spread_eq, ih]

/-- So as many words of each length are counted, or the count meets the same fault. -/
theorem countAccepted_eq (h : a.Interchangeable b) (n : Nat) :
    b.countAccepted n = a.countAccepted n := by
  unfold countAccepted emptyWordWays
  simp only [h.start_eq, h.terminal_eq, h.lengthen_eq]

/-! ## Combinations -/

/-- Interchangeable operands have the same intersection: not an interchangeable one, but the very
same automaton. -/
theorem intersect_eq (h : a.Interchangeable b) (h' : c.Interchangeable d) :
    (b.intersect d).outcome = (a.intersect c).outcome := by
  -- the pairing looks at the successors only, so it is one and the same
  have hpair : b.transition.pair d.transition = a.transition.pair c.transition := by
    unfold Transition.pair
    rw [h.apply_eq, h'.apply_eq]
  simp [intersect, recordCombine, record, make, h.start_eq, h'.start_eq, h.terminal_eq,
    h'.terminal_eq, hpair]

/-- Interchangeable operands are combined to the same automaton. -/
theorem combine_eq (h : a.Interchangeable b) (h' : c.Interchangeable d) (p : Pairing) :
    (b.combine d p).outcome = (a.combine c p).outcome := by
  have hleft := h.complement.intersect_eq h'
  have hright := h.intersect_eq h'.complement
  cases p with
  | intersect => exact h.intersect_eq h'
  | union =>
    have hneither := h.complement.intersect_eq h'.complement
    simp [combine, union, recordCombine, record, complement_outcome, hneither]
  | difference => simp [combine, difference, recordCombine, record, complement_outcome, hright]
  | symmetricDifference =>
    simp [combine, symmetricDifference, recordCombine, record, make, complement_outcome, hleft,
      hright]

/-- So whatever is asked of the combination gets the same answer. -/
theorem ask_eq {α : Type} (h : a.Interchangeable b) (h' : c.Interchangeable d) (p : Pairing)
    (ask : Automaton S (Q × M) → Logged Fault α) :
    (b.combine d p >>= ask).outcome = (a.combine c p >>= ask).outcome := by
  rw [Journal.outcome_bind, Journal.outcome_bind, h.combine_eq h']

end Interchangeable

/-! ## Everything that is asked -/

/-- Nothing that is asked of an automaton tells the two apart: no step, run or trace, no question
about its language, and no comparison with another automaton, on whichever side it stands. -/
structure Indistinguishable (a b : Automaton S Q) : Prop extends Interchangeable a b where
  run_eq : ∀ q word, b.run q word = a.run q word
  take_eq : ∀ n t, Trace.take b n t = Trace.take a n t
  accepts_eq : ∀ word, b.accepts word = a.accepts word
  reachableStates_eq : b.reachableStates.outcome = a.reachableStates.outcome
  isEmpty_eq : b.isEmpty.outcome = a.isEmpty.outcome
  isUniversal_eq : b.isUniversal.outcome = a.isUniversal.outcome
  shortestAccepted_eq : b.shortestAccepted.outcome = a.shortestAccepted.outcome
  shortestRejected_eq : b.shortestRejected.outcome = a.shortestRejected.outcome
  countAccepted_eq : ∀ n, b.countAccepted n = a.countAccepted n
  isSubsetOf_eq : ∀ {M : Type} [Indexed M] (c : Automaton S M),
    (b.isSubsetOf c).outcome = (a.isSubsetOf c).outcome ∧
      (c.isSubsetOf b).outcome = (c.isSubsetOf a).outcome
  isEquivalentTo_eq : ∀ {M : Type} [Indexed M] (c : Automaton S M),
    (b.isEquivalentTo c).outcome = (a.isEquivalentTo c).outcome ∧
      (c.isEquivalentTo b).outcome = (c.isEquivalentTo a).outcome
  distinguishingWord_eq : ∀ {M : Type} [Indexed M] (c : Automaton S M),
    (b.distinguishingWord c).outcome = (a.distinguishingWord c).outcome ∧
      (c.distinguishingWord b).outcome = (c.distinguishingWord a).outcome

/-- Each question was shown to go through the start state, the terminal states and the steps, and a
comparison is a question about a combination. -/
theorem Interchangeable.indistinguishable {a b : Automaton S Q} (h : a.Interchangeable b) :
    a.Indistinguishable b where
  toInterchangeable := h
  run_eq q word := run_congr h.step_eq word q
  take_eq := h.take_eq
  accepts_eq := h.accepts_eq
  reachableStates_eq := h.reachableStates_eq
  isEmpty_eq := h.isEmpty_eq
  isUniversal_eq := h.isUniversal_eq
  shortestAccepted_eq := h.shortestAccepted_eq
  shortestRejected_eq := h.shortestRejected_eq
  countAccepted_eq := h.countAccepted_eq
  isSubsetOf_eq c :=
    ⟨h.ask_eq (.refl c) .difference isEmpty, (Interchangeable.refl c).ask_eq h .difference isEmpty⟩
  isEquivalentTo_eq c :=
    ⟨h.ask_eq (.refl c) .symmetricDifference isEmpty,
      (Interchangeable.refl c).ask_eq h .symmetricDifference isEmpty⟩
  distinguishingWord_eq c :=
    ⟨h.ask_eq (.refl c) .symmetricDifference shortestAccepted,
      (Interchangeable.refl c).ask_eq h .symmetricDifference shortestAccepted⟩

/-! ## Tables -/

/-- A table that is there is kept, and nothing is written. -/
theorem tabulate_eq_self {a : Automaton S Q} (h : a.isTabulated = true) :
    a.tabulate = pure a := by
  unfold tabulate
  cases htransition : a.transition with
  | tabulated table => rfl
  | computed f =>
    unfold isTabulated at h
    rw [htransition] at h
    cases h

/-- Where there was no table before there is one afterwards. -/
theorem isTabulated_of_tabulate {a t : Automaton S Q} (h : a.tabulate.outcome = .ok t) :
    t.isTabulated = true := by
  cases htransition : a.transition with
  | tabulated table =>
    have ha : a.isTabulated = true := by
      unfold isTabulated
      rw [htransition]
      rfl
    rw [tabulate_eq_self ha, Journal.outcome_pure, Except.ok.injEq] at h
    exact h ▸ ha
  | computed f =>
    rw [tabulate_outcome htransition, bind_eq_ok] at h
    obtain ⟨table, _, ht⟩ := h
    cases ht
    rfl

/-- Accepts the words with an odd number of `true`. -/
def oddTrues : Automaton Bool Bool where
  start := false
  terminal := ⟨((BitSet.full (Indexed.count Bool)).remove 0).2, rfl⟩
  transition := .computed fun odd s => .ok (odd ^^ s)

/-- Accepts every word, as none has both an even and an odd number of `true`. The states are nested
pairs, and their successors are computed from those of the components. -/
def nested : Logged Fault (Automaton Bool ((Bool × Unit) × Bool)) := do
  (← (← oddTrues.symmetricDifference everyWord).intersect oddTrues).complement

end Automaton

end Automata
