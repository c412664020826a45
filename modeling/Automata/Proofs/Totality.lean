import Automata.Automaton.Trace
import Automata.Proofs.Counts
import Automata.Proofs.Descriptions
import Automata.Proofs.Expressions
import Automata.Proofs.ShortestWords

/-!
# No fault on made automata

`Made` is every automaton that can be made: built from a description or around a table, and from
there by complements, combinations in either spelling, other start states and tabulation, in any
order and to any depth. (A copy of an automaton is the automaton.) Only the functions that are given
from outside are assumed to give a value, and the numbers of pairs and of table cells to be indices.
Then nothing that is asked of a made automaton meets a fault:

> `calls_meet_no_fault`: building ends in an automaton or in a defect, never in a fault, and every
> call on made automata answers, for all states, symbols, words and lengths.

The induction is on how the automaton was made, and what it carries is `Made.total`: the states are
lawfully numbered and every step gives a state. For a table this means that each of its entries can
be read (`Table.Readable`), which every way of making a table ensures.
-/

namespace Automata

/-! ## Defects, but no faults -/

section Faultless

variable {S Q α β : Type} {P : α → Prop} {R : β → Prop}

/-- A value that satisfies `P` came out, or a defect was found; no fault was met. -/
def Faultless (P : α → Prop) : Except (Failure S Q) α → Prop
  | .ok a => P a
  | .error (.defect _) => True
  | .error (.fault _) => False

/-- Where nothing but values and defects can come out, no fault does. -/
theorem Faultless.ne_fault {x : Except (Failure S Q) α} (h : Faultless P x) (fault : Fault) :
    x ≠ .error (.fault fault) := by
  rintro rfl
  exact h

theorem Faultless.of_eq_ok {x : Except (Failure S Q) α} (h : Faultless P x) {a : α}
    (hx : x = .ok a) : P a := by
  rw [hx] at h
  exact h

/-- A chain is faultless when each of its steps is, given what the step before it ensures. A defect
ends the chain. -/
theorem Faultless.bind {x : Except (Failure S Q) α} {f : α → Except (Failure S Q) β}
    (hx : Faultless P x) (hf : ∀ a, P a → Faultless R (f a)) : Faultless R (x >>= f) := by
  match x with
  | .ok a => exact hf a hx
  | .error (.defect _) => trivial
  | .error (.fault _) => exact hx

/-- A check that can only find defects is faultless, and what comes out of it may be used. -/
theorem faultless_mapError_defect {x : Except (Defect S Q) α} (h : ∀ a, x = .ok a → P a) :
    Faultless P (x.mapError .defect : Except (Failure S Q) α) := by
  cases x with
  | ok a => exact h a rfl
  | error d => trivial

/-- A checked computation is faultless when it is known to give a value. -/
theorem faultless_mapError_fault {x : Checked α} {a : α} (hx : x = .ok a) (h : P a) :
    Faultless P (x.mapError .fault : Except (Failure S Q) α) := by
  rw [hx]
  exact h

/-- Reading a list entry by entry stops at the first defect, and meets no fault when no entry
does. -/
theorem faultless_mapM {f : β → Except (Failure S Q) α} (h : ∀ b, Faultless P (f b)) :
    ∀ l : List β, Faultless (fun as => ∀ a ∈ as, P a) (l.mapM f) := by
  intro l
  induction l with
  | nil => exact fun a ha => nomatch ha
  | cons b l ih =>
    rw [List.mapM_cons]
    refine (h b).bind fun a ha => ih.bind fun as has => ?_
    exact List.forall_mem_cons.mpr ⟨ha, has⟩

end Faultless

/-! ## Tables -/

namespace Table

variable {S Q : Type} [Indexed S] [Indexed Q]

/-- Every entry of the table is the number of a state. -/
def Readable (t : Table S Q) : Prop := ∀ q s, ∃ r, t.get q s = .ok r

/-- The tables that can be made: from a function, from rules, or from numbers. -/
inductive Made : Table S Q → Prop where
  | ofFunction {f : Q → S → Checked Q} {t : Table S Q} : ofFunction f = .ok t → Made t
  | ofRules [DecidableEq S] [DecidableEq Q] [Hashable S] [Hashable Q] {rules : List (Rule S Q)}
    {t : Table S Q} : (ofRules rules).outcome = .ok t → Made t
  | ofIndices {successors : List Nat} {t : Table S Q} : ofIndices successors = .ok t → Made t

variable [LawfulIndexed S] [LawfulIndexed Q]

/-- The cells of a table hold the numbers of the states they were made from, so each can be read. -/
theorem readable_graph (hfits : fits Q = true)
    (hcells : Indexed.count Q * Indexed.count S < indexLimit) (f : Q → S → Q) :
    (graph f).Readable := fun q s => ⟨f q s, get_graph hfits hcells f q s⟩

/-- A table made of a function holds its values, which are states. -/
theorem readable_ofFunction (hcells : Indexed.count Q * Indexed.count S < indexLimit)
    {f : Q → S → Checked Q} {t : Table S Q} (h : ofFunction f = .ok t) : t.Readable := by
  obtain ⟨hfits, g, _, rfl⟩ := ofFunction_eq_graph h
  exact readable_graph hfits hcells g

/-- Numbers become a table only after all of them were found to be numbers of states. -/
theorem readable_ofIndices (hcells : Indexed.count Q * Indexed.count S < indexLimit)
    {successors : List Nat} {t : Table S Q} (h : ofIndices successors = .ok t) : t.Readable := by
  obtain ⟨hfits, f, _, rfl⟩ := ofIndices_eq_ok h
  exact readable_graph hfits hcells f

/-- Rules are read as a table or found defective. -/
theorem faultless_ofRules [DecidableEq S] [DecidableEq Q] [Hashable S] [Hashable Q]
    (hcells : Indexed.count Q * Indexed.count S < indexLimit) (rules : List (Rule S Q)) :
    Faultless Readable (ofRules rules).outcome := by
  have hverdict := ofRules_verdict rules
  generalize (ofRules rules).outcome = outcome at hverdict
  cases hverdict with
  | conflict => trivial
  | tooLarge => trivial
  | gap => trivial
  | table t _ _ hcovered hget =>
    intro q s
    obtain ⟨r, hr⟩ := Classical.not_forall_not.mp (hcovered q s)
    exact ⟨r, (hget hcells q s r).mpr hr⟩

/-- Every way of making a table leaves entries that can be read. -/
theorem Made.readable (hcells : Indexed.count Q * Indexed.count S < indexLimit) {t : Table S Q}
    (h : t.Made) : t.Readable := by
  cases h with
  | ofFunction h => exact readable_ofFunction hcells h
  | ofRules h => exact (faultless_ofRules hcells _).of_eq_ok h
  | ofIndices h => exact readable_ofIndices hcells h

end Table

/-! ## Descriptions -/

namespace Automaton

variable {S Q : Type} [Indexed S] [Indexed Q] [LawfulIndexed S] [LawfulIndexed Q]

omit [Indexed S] [LawfulIndexed S] in
/-- A number that is out of range is a defect, as it is tested before the state is looked up. -/
theorem faultless_stateAt (i : Nat) :
    Faultless (fun _ : Q => True) (stateAt i : Except (Failure S Q) Q) := by
  by_cases hi : i < Indexed.count Q
  · obtain ⟨q, _, rfl⟩ := exists_number (α := Q) hi
    rw [stateAt_number]
    trivial
  · rw [stateAt, if_neg hi]
    trivial

/-- Reading the numbers of an automaton finds a defect or leaves a table whose entries can be
read. The tests stand before the uses: the states of the terminal list exist when they are put
into a set. -/
theorem faultless_readIndices (hcells : Indexed.count Q * Indexed.count S < indexLimit)
    (start : Nat) (terminal successors : List Nat) :
    Faultless Total (readIndices start terminal successors : Except (Failure S Q) _) := by
  refine (faultless_mapError_defect fun _ _ => trivial).bind fun _ _ => ?_
  refine (faultless_stateAt start).bind fun q _ => ?_
  refine (faultless_mapM faultless_stateAt terminal).bind fun states _ => ?_
  refine (faultless_mapError_defect fun t ht => Table.readable_ofIndices hcells ht).bind ?_
  intro table htable
  -- every number of the list was found to be that of a state, so the set can be made
  obtain ⟨set, hset, _⟩ := StateSet.ofList_eq_ok states
  exact (faultless_mapError_fault (P := fun _ => True) hset trivial).bind fun _ _ => htable

end Automaton

namespace Description

variable {S Q : Type} [Indexed S] [Indexed Q]

/-- The function that is given from outside always gives a state. The cells of a table have
indices, and a table is made of a function only for few enough states. -/
def Sound : Description S Q → Prop
  | .computed _ _ f => ∀ q s, ¬Fails (f q s)
  | .tabulated _ _ f => (∀ q s, ¬Fails (f q s)) ∧ Table.fits Q = true ∧
    Indexed.count Q * Indexed.count S < indexLimit
  | .listed _ _ _ => Indexed.count Q * Indexed.count S < indexLimit
  | .numbered _ _ _ => Indexed.count Q * Indexed.count S < indexLimit
  | .drafted _ => Indexed.count Q * Indexed.count S < indexLimit

variable [LawfulIndexed S] [LawfulIndexed Q] [DecidableEq S] [DecidableEq Q] [Hashable S]
  [Hashable Q]

/-- A sound description is found defective or gives an automaton, and then every step of the
automaton gives a state. -/
theorem faultless_build {d : Description S Q} (hd : d.Sound) :
    Faultless Automaton.Total d.build.outcome := by
  cases d with
  | computed start isTerminal f =>
    obtain ⟨terminal, hbuild, _⟩ := Automaton.ofFunction_eq_ok start isTerminal f
    exact faultless_mapError_fault hbuild fun q s => not_fails_iff.mp (hd q s)
  | tabulated start isTerminal f =>
    obtain ⟨hf, hfits, hcells⟩ := hd
    obtain ⟨terminal, hterminal, _⟩ := StateSet.ofPredicate_eq_ok isTerminal
    have hmade : ¬Fails (Table.ofFunction f : Checked (Table S Q)) := by
      rw [Table.fails_ofFunction hfits]
      rintro ⟨q, s, hfails⟩
      exact hf q s hfails
    obtain ⟨t, ht⟩ := not_fails_iff.mp hmade
    simp only [build, Journal.outcome_bind, Journal.outcome_liftM_fault, hterminal, ht]
    exact Table.readable_ofFunction hcells ht
  | listed start terminal rules =>
    obtain ⟨set, hset, _⟩ := StateSet.ofList_eq_ok terminal
    simp only [build, Journal.outcome_bind, Journal.outcome_liftM_fault, hset]
    exact (Table.faultless_ofRules hd rules).bind fun table htable => htable
  | numbered start terminal successors =>
    have hread := Automaton.faultless_readIndices (S := S) (Q := Q) hd start terminal successors
    simp only [build, Automaton.ofIndices, Journal.outcome_bind, Journal.outcome_liftM]
    exact hread.bind fun a ha => ha
  | drafted calls =>
    obtain ⟨d, hall, _⟩ := Draft.applyAll_eq_ok calls (.empty : Draft S Q)
    simp only [build, Journal.outcome_bind, Journal.outcome_liftM_fault, hall, mapError_ok, ok_bind,
      Draft.build_outcome]
    -- a draft without a start state is a defect before any rule is read
    cases d.start? with
    | none => trivial
    | some q =>
      obtain ⟨set, hset, _⟩ := StateSet.ofList_eq_ok d.terminal.toList
      refine (Table.faultless_ofRules hd _).bind fun table htable => ?_
      rw [hset]
      exact htable

end Description

/-! ## Made automata -/

namespace Automaton

section Made

variable {S : Type} [Indexed S]

/-- The automata that can be made. -/
inductive Made : {Q : Type} → [Indexed Q] → Automaton S Q → Prop where
  /-- An automaton is built from a description -/
  | described {Q : Type} [Indexed Q] [LawfulIndexed Q] [DecidableEq S] [DecidableEq Q] [Hashable S]
    [Hashable Q] {d : Description S Q} {a : Automaton S Q} :
    d.Sound → d.build.outcome = .ok a → Made a
  /-- or around a table, with any set of terminal states, -/
  | ofTable {Q : Type} [Indexed Q] [LawfulIndexed Q] {start : Q} {terminal : StateSet Q}
    {table : Table S Q} {a : Automaton S Q} :
    table.Made → Indexed.count Q * Indexed.count S < indexLimit →
    (ofTable start terminal table : Logged Fault (Automaton S Q)).outcome = .ok a → Made a
  /-- or is the complement of an automaton that was made, -/
  | complement {Q : Type} [Indexed Q] {a c : Automaton S Q} :
    Made a → a.complement.outcome = .ok c → Made c
  /-- or the combination of two, -/
  | combine {Q M : Type} [Indexed Q] [Indexed M] {a : Automaton S Q} {b : Automaton S M}
    {p : Pairing} {c : Automaton S (Q × M)} :
    Made a → Made b → Indexed.count (Q × M) < indexLimit → (a.combine b p).outcome = .ok c → Made c
  /-- which may be written by an operator, -/
  | operate {Q M : Type} [Indexed Q] [Indexed M] {a : Automaton S Q} {b : Automaton S M}
    {p : Pairing} {c : Automaton S (Q × M)} :
    Made a → Made b → Indexed.count (Q × M) < indexLimit → (a.operate b p).outcome = .ok c → Made c
  /-- or starts in another state, -/
  | withStart {Q : Type} [Indexed Q] {a : Automaton S Q} (q : Q) : Made a → Made (a.withStart q)
  /-- or has its successors in a table. -/
  | tabulate {Q : Type} [Indexed Q] {a t : Automaton S Q} :
    Made a → Indexed.count Q * Indexed.count S < indexLimit → a.tabulate.outcome = .ok t → Made t

variable [LawfulIndexed S]

/-- A table that is there is kept; a new one is made of the steps, and each of its entries can be
read. -/
theorem total_of_tabulate {Q : Type} [Indexed Q] [LawfulIndexed Q] {a t : Automaton S Q}
    (ha : a.Total) (hcells : Indexed.count Q * Indexed.count S < indexLimit)
    (h : a.tabulate.outcome = .ok t) : t.Total := by
  cases htransition : a.transition with
  | tabulated table =>
    have hself : a.tabulate.outcome = .ok a := by simp [tabulate, htransition]
    rw [hself] at h
    cases h
    exact ha
  | computed f =>
    rw [tabulate_outcome htransition, bind_eq_ok] at h
    obtain ⟨table, htable, ht⟩ := h
    cases ht
    exact Table.readable_ofFunction hcells htable

omit [LawfulIndexed S] in
theorem total_of_combine {Q M : Type} [Indexed Q] [Indexed M] [LawfulIndexed Q] [LawfulIndexed M]
    {a : Automaton S Q} {b : Automaton S M} {p : Pairing} {c : Automaton S (Q × M)}
    (ha : a.Total) (hb : b.Total) (hpairs : Indexed.count (Q × M) < indexLimit)
    (h : (a.combine b p).outcome = .ok c) : c.Total := by
  obtain ⟨c', hc', hcombines⟩ := combine_eq_ok hpairs p a b
  rw [hc'] at h
  cases h
  exact hcombines.total ha hb

/-- However an automaton was made, its states are lawfully numbered and every step gives a state. -/
theorem Made.total {Q : Type} [Indexed Q] {a : Automaton S Q} (h : Made a) :
    LawfulIndexed Q ∧ a.Total := by
  induction h with
  | described hd hbuild => exact ⟨‹_›, (Description.faultless_build hd).of_eq_ok hbuild⟩
  | ofTable htable hcells ha =>
    cases ha
    exact ⟨‹_›, htable.readable hcells⟩
  | complement _ hc ih =>
    cases hc
    exact ih
  | combine _ _ hpairs hc iha ihb =>
    have := iha.1
    have := ihb.1
    exact ⟨LawfulIndexed.pair hpairs, total_of_combine iha.2 ihb.2 hpairs hc⟩
  | operate _ _ hpairs hc iha ihb =>
    have := iha.1
    have := ihb.1
    rw [operate_eq_combine] at hc
    exact ⟨LawfulIndexed.pair hpairs, total_of_combine iha.2 ihb.2 hpairs hc⟩
  | withStart q _ ih => exact ih
  | tabulate _ hcells ht ih =>
    have := ih.1
    exact ⟨ih.1, total_of_tabulate ih.2 hcells ht⟩

end Made

/-! ## Calls on automata -/

section Calls

variable {S Q M : Type} [Indexed S] [Indexed Q] [Indexed M]

/-- Every call on the automaton alone answers. -/
structure Answers (a : Automaton S Q) : Prop where
  step : ∀ q s, ¬Fails (a.step q s)
  run : ∀ q word, ¬Fails (a.run q word)
  isTerminal : ∀ q, ¬Fails (a.isTerminal q)
  accepts : ∀ word, ¬Fails (a.accepts word)
  /-- A trace answers however often it is asked for the next state. -/
  trace : ∀ q word n, ∀ answer ∈ Trace.take a n (.fresh q word), ¬Fails answer
  complement : ¬Fails a.complement.outcome
  /-- A table is made only for few enough states. -/
  tabulate : Table.fits Q = true → Indexed.count Q * Indexed.count S < indexLimit →
    ¬Fails a.tabulate.outcome
  reachableStates : ¬Fails a.reachableStates.outcome
  isEmpty : ¬Fails a.isEmpty.outcome
  isUniversal : ¬Fails a.isUniversal.outcome
  shortestAccepted : ¬Fails a.shortestAccepted.outcome
  shortestRejected : ¬Fails a.shortestRejected.outcome
  countAccepted : ∀ n, ¬Fails (a.countAccepted n)

/-- Every call on two automata answers. -/
structure AnswersWith (a : Automaton S Q) (b : Automaton S M) : Prop where
  combine : ∀ p, ¬Fails (a.combine b p).outcome
  operate : ∀ p, ¬Fails (a.operate b p).outcome
  isSubsetOf : ¬Fails (a.isSubsetOf b).outcome
  isEquivalentTo : ¬Fails (a.isEquivalentTo b).outcome
  distinguishingWord : ¬Fails (a.distinguishingWord b).outcome

/-- A trace is at its start, at its end, or about to take a step, and only a step could fail. -/
theorem Total.not_fails_next {a : Automaton S Q} (h : a.Total) (t : Trace S Q) :
    ¬Fails (t.next a).1 := by
  cases t with
  | fresh q word => exact not_fails_ok _
  | running q word =>
    cases word with
    | nil => exact not_fails_ok _
    | cons s word =>
      obtain ⟨r, hr⟩ := h q s
      rw [Trace.next, hr]
      exact not_fails_ok _
  | finished => exact not_fails_ok _

/-- No answer of a trace is a fault, however many are asked for. -/
theorem Total.not_fails_take {a : Automaton S Q} (h : a.Total) : ∀ (n : Nat) (t : Trace S Q),
    ∀ answer ∈ Trace.take a n t, ¬Fails answer := by
  intro n
  induction n with
  | zero => exact fun t answer hanswer => nomatch hanswer
  | succ n ih =>
    intro t
    exact List.forall_mem_cons.mpr ⟨h.not_fails_next t, ih (t.next a).2⟩

variable [LawfulIndexed S] [LawfulIndexed Q] [LawfulIndexed M]

/-- When every step gives a state, all calls answer: searches and counts fail only where a run
does. -/
theorem Total.answers {a : Automaton S Q} (h : a.Total) : a.Answers where
  step q s := not_fails_iff.mpr (h q s)
  run q word := not_fails_iff.mpr (h.run_ok word q)
  isTerminal q := not_fails_iff.mpr ⟨_, isTerminal_eq a q⟩
  accepts word := not_fails_iff.mpr (h.unfailing.accepts_ok word)
  trace q word n := h.not_fails_take n (.fresh q word)
  complement := not_fails_ok _
  tabulate hfits hcells := by
    obtain ⟨t, ht, _⟩ := tabulate_eq_ok h hfits hcells
    exact not_fails_iff.mpr ⟨t, ht⟩
  reachableStates hfails := not_unfailing.mpr (fails_reachableStates.mp hfails) h.unfailing
  isEmpty hfails := not_unfailing.mpr (fails_isEmpty.mp hfails) h.unfailing
  isUniversal hfails := not_unfailing.mpr (fails_isUniversal.mp hfails) h.unfailing
  shortestAccepted := by
    obtain ⟨answer, hanswer, _⟩ := shortestAccepted_isFirst h.unfailing
    exact not_fails_iff.mpr ⟨answer, hanswer⟩
  shortestRejected := by
    obtain ⟨answer, hanswer, _⟩ := shortestRejected_isFirst h.unfailing
    exact not_fails_iff.mpr ⟨answer, hanswer⟩
  countAccepted := h.unfailing.not_fails_countAccepted

/-- The same of two automata. Their combination is total, so it answers what it is asked. -/
theorem Total.answersWith {a : Automaton S Q} {b : Automaton S M} (ha : a.Total) (hb : b.Total)
    (hpairs : Indexed.count (Q × M) < indexLimit) : a.AnswersWith b := by
  have := LawfulIndexed.pair hpairs
  have hcombine : ∀ p, ¬Fails (a.combine b p).outcome := fun p => by
    obtain ⟨c, hc, _⟩ := combine_eq_ok hpairs p a b
    exact not_fails_iff.mpr ⟨c, hc⟩
  -- the comparisons ask a combination, whose steps are those of both
  have hask : ∀ {α : Type} (p : Pairing) (ask : Automaton S (Q × M) → Logged Fault α),
      (∀ c, Answers c → ¬Fails (ask c).outcome) → ¬Fails (a.combine b p >>= ask).outcome := by
    intro α p ask hanswers
    obtain ⟨c, hc, hcombines⟩ := combine_eq_ok hpairs p a b
    rw [Journal.outcome_bind, hc, ok_bind]
    exact hanswers c (hcombines.total ha hb).answers
  exact {
    combine := hcombine
    operate := fun p => operate_eq_combine a b p ▸ hcombine p
    isSubsetOf := hask .difference isEmpty fun _ hc => hc.isEmpty
    isEquivalentTo := hask .symmetricDifference isEmpty fun _ hc => hc.isEmpty
    distinguishingWord :=
      hask .symmetricDifference shortestAccepted fun _ hc => hc.shortestAccepted }

end Calls

/-- Accepts the words that end in `true`. -/
def endsInTrueByNumbers : Description Bool (Fin 2) := .numbered 0 [1] [0, 1, 0, 1]

/-- Accepts the words with an odd number of `true`. -/
def oddTruesByFunction : Description Bool Bool := .computed false id fun odd s => .ok (odd ^^ s)

end Automaton

end Automata
