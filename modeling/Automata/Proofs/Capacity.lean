import Automata.Proofs.ReadingNumbers
import Automata.Proofs.TableEntries
import Automata.Proofs.Tabulation

/-!
# The capacity of tables

A table keeps the numbers of successors in 32 bits, and nothing checks that a number still is itself
when it is narrowed. What stands in for this check is a test of how many states there are, and it
comes at a different point on each of the ways to a table. This file is about both sides of that
test. Where it is passed, a table holds what it was made from, number by number (`Table.Stores`),
and a table in an automaton is such a table, whatever the automaton was made of (`Made.table`).
Where it fails there is no table at all: the automaton or the table is refused, with the defect that
comes first on the way (`RulesRefused`), and a function is refused without being evaluated, so that
not even one that meets a fault everywhere is noticed.

> `successors_never_truncated`: successors are stored and given back exactly, on every way to a
> table, up to the largest number of states; beyond it every way is refused.
-/

namespace Automata

/-! ## Tables -/

namespace Table

variable {S Q : Type} [Indexed S] [Indexed Q]

/-- The table holds the values of the function: the entry for a pair is the number of the value,
which has lost nothing in 32 bits, and it is read as the value. -/
structure Stores (t : Table S Q) (f : Q → S → Q) : Prop where
  entry : ∀ q s, ∃ e, t.successors[number q * Indexed.count S + number s]? = some e ∧
    index (f q s) = .ok e.toNat
  get_eq : ∀ q s, t.get q s = .ok (f q s)

/-- Within the limit a number of 32 bits is the number itself, so the graph stores its function. -/
theorem stores_graph [LawfulIndexed S] [LawfulIndexed Q] (hfits : fits Q = true)
    (hcells : Indexed.count Q * Indexed.count S < indexLimit) (f : Q → S → Q) :
    (graph f).Stores f where
  entry q s := by
    refine ⟨_, getElem?_graph f q s, ?_⟩
    rw [index_eq, toNat_toUInt32 hfits (number_lt _)]
  get_eq := get_graph hfits hcells f

omit [Indexed S] in
theorem not_fits_of_large (hlarge : maxStates < Indexed.count Q) : ¬fits Q = true := fun hfits =>
  Nat.not_le_of_lt hlarge (of_decide_eq_true hfits)

/-- Too many states are refused before the function is evaluated. -/
theorem ofFunction_of_large (hlarge : maxStates < Indexed.count Q) (f : Q → S → Checked Q) :
    (ofFunction f : Checked (Table S Q)) = .error (.untabulable (Indexed.count Q)) := by
  rw [ofFunction, if_neg (not_fits_of_large hlarge)]
  rfl

/-- Too many states are refused before the numbers are looked at. -/
theorem ofIndices_of_large (hlarge : maxStates < Indexed.count Q) (successors : List Nat) :
    (ofIndices successors : Except (Defect S Q) (Table S Q)) =
      .error (.stateSpaceTooLarge (Indexed.count Q)) := by
  rw [ofIndices, requireFits, if_neg (not_fits_of_large hlarge)]
  rfl

/-- What is reported for rules over too many states. The first conflict is, if there is one. -/
inductive RulesRefused (rules : List (Rule S Q)) : Failure S Q → Prop where
  | conflict {q first second : Q} {s : S} : Rules.FirstConflict rules q s first second →
    RulesRefused rules (.defect (.conflictingTransition q s first second))
  | tooLarge : ¬Rules.Conflicting rules →
    RulesRefused rules (.defect (.stateSpaceTooLarge (Indexed.count Q)))

/-- Rules are read before the states are counted, so a conflict comes before the refusal. -/
theorem ofRules_of_large [DecidableEq S] [DecidableEq Q] [Hashable S] [Hashable Q]
    [LawfulIndexed S] [LawfulIndexed Q] (hlarge : maxStates < Indexed.count Q)
    (rules : List (Rule S Q)) :
    ∃ failure, (ofRules rules).outcome = .error failure ∧ RulesRefused rules failure := by
  have hverdict := ofRules_verdict rules
  generalize (ofRules rules).outcome = ending at hverdict ⊢
  cases hverdict with
  | conflict q s first second hfirst => exact ⟨_, rfl, .conflict hfirst⟩
  | tooLarge hnone => exact ⟨_, rfl, .tooLarge hnone⟩
  | gap _ _ _ hfits | table _ _ hfits => exact absurd hfits (not_fits_of_large hlarge)

/-- There is no table with too many states, however it would be made. -/
theorem Made.not_large [LawfulIndexed S] [LawfulIndexed Q] {t : Table S Q} (h : t.Made) :
    ¬maxStates < Indexed.count Q := fun hlarge =>
  not_fits_of_large hlarge h.exists_graph.1

end Table

/-! ## Automata with tables -/

namespace Automaton

variable {S Q : Type} [Indexed S] [Indexed Q]

/-- The automaton has a table, which holds the values of the function. -/
def Tabulates (a : Automaton S Q) (f : Q → S → Q) : Prop :=
  ∃ t, a.transition = .tabulated t ∧ t.Stores f

theorem exists_computed {a : Automaton S Q} (h : a.isTabulated = false) :
    ∃ f, a.transition = .computed f := by
  rw [isTabulated] at h
  cases htransition : a.transition with
  | tabulated table =>
    rw [htransition] at h
    cases h
  | computed f => exact ⟨f, rfl⟩

theorem exists_tabulated {a : Automaton S Q} (h : a.isTabulated = true) :
    ∃ t, a.transition = .tabulated t := by
  rw [isTabulated] at h
  cases htransition : a.transition with
  | tabulated table => exact ⟨table, rfl⟩
  | computed f =>
    rw [htransition] at h
    cases h

/-- The table that is made for an automaton is made of its steps. -/
theorem tabulate_eq_ok_iff {a b : Automaton S Q} (h : a.isTabulated = false) :
    a.tabulate.outcome = .ok b ↔
      ∃ t, Table.ofFunction a.step = .ok t ∧ b = ⟨a.start, a.terminal, .tabulated t⟩ := by
  obtain ⟨f, htransition⟩ := exists_computed h
  have hstep : a.step = f := by
    funext q s
    rw [step, htransition]
    rfl
  rw [tabulate_outcome htransition, bind_eq_ok, hstep]
  simp only [Except.ok.injEq, eq_comm]

/-- The table of an automaton that is read from numbers is read from the successors among them. -/
theorem transition_of_readIndices {start : Nat} {terminal successors : List Nat}
    {a : Automaton S Q} (h : readIndices start terminal successors = .ok a) :
    ∃ t, a.transition = .tabulated t ∧ Table.ofIndices successors = .ok t := by
  have hfits : Table.fits Q = true := by
    refine Classical.byContradiction fun hlarge => ?_
    simp only [readIndices, Table.requireFits, if_neg hlarge] at h
    cases h
  rw [readIndices_eq hfits] at h
  obtain ⟨q, _, h⟩ := bind_eq_ok.mp h
  obtain ⟨states, _, h⟩ := bind_eq_ok.mp h
  obtain ⟨t, ht, h⟩ := bind_eq_ok.mp h
  obtain ⟨set, _, h⟩ := bind_eq_ok.mp h
  cases h
  exact ⟨t, rfl, mapError_eq_ok.mp ht⟩

end Automaton

/-- The table of an automaton that was drafted is read from the rules of the draft. -/
theorem Draft.transition_of_build {S Q : Type} [Indexed S] [Indexed Q] [DecidableEq S]
    [DecidableEq Q] [Hashable S] [Hashable Q] {d : Draft S Q} {a : Automaton S Q}
    (h : d.build.outcome = .ok a) :
    ∃ t, a.transition = .tabulated t ∧ (Table.ofRules d.rules.toList).outcome = .ok t := by
  rw [build_outcome] at h
  cases hstart : d.start? with
  | none =>
    rw [hstart] at h
    cases h
  | some q =>
    rw [hstart] at h
    obtain ⟨t, ht, h⟩ := bind_eq_ok.mp h
    obtain ⟨terminal, _, h⟩ := bind_eq_ok.mp h
    cases h
    exact ⟨t, rfl, ht⟩

/-- A table in an automaton that was built from a description was made. -/
theorem Description.table_of_build {S Q : Type} [Indexed S] [Indexed Q] [LawfulIndexed Q]
    [DecidableEq S] [DecidableEq Q] [Hashable S] [Hashable Q] {d : Description S Q}
    {a : Automaton S Q} (h : d.build.outcome = .ok a) {t : Table S Q}
    (ht : a.transition = .tabulated t) : t.Made := by
  cases d with
  | computed start isTerminal f =>
    -- here the successors stay computed, so there is no table to speak of
    obtain ⟨terminal, hmade, _⟩ := Automaton.ofFunction_eq_ok start isTerminal f
    have hbuild : (Automaton.ofFunction start isTerminal f).outcome = .ok a := mapError_eq_ok.mp h
    rw [hmade] at hbuild
    cases hbuild
    cases ht
  | tabulated start isTerminal f =>
    simp only [build, Journal.outcome_bind, Journal.outcome_liftM_fault] at h
    obtain ⟨terminal, _, h⟩ := bind_eq_ok.mp h
    obtain ⟨table, htable, h⟩ := bind_eq_ok.mp h
    cases h
    cases ht
    exact .ofFunction (mapError_eq_ok.mp htable)
  | listed start terminal rules =>
    simp only [build, Journal.outcome_bind, Journal.outcome_liftM_fault] at h
    obtain ⟨set, _, h⟩ := bind_eq_ok.mp h
    obtain ⟨table, htable, h⟩ := bind_eq_ok.mp h
    cases h
    cases ht
    exact .ofRules htable
  | numbered start terminal successors =>
    rw [build, Automaton.ofIndices_outcome] at h
    obtain ⟨table, htransition, htable⟩ := Automaton.transition_of_readIndices h
    cases htransition.symm.trans ht
    exact .ofIndices htable
  | drafted calls =>
    simp only [build, Journal.outcome_bind] at h
    obtain ⟨d, _, h⟩ := bind_eq_ok.mp h
    obtain ⟨table, htransition, htable⟩ := Draft.transition_of_build h
    cases htransition.symm.trans ht
    exact .ofRules htable

namespace Automaton

variable {S : Type} [Indexed S] [LawfulIndexed S]

omit [LawfulIndexed S] in
/-- The steps of a combination are computed. -/
theorem transition_ne_of_combine {Q M : Type} [Indexed Q] [Indexed M] [LawfulIndexed Q]
    [LawfulIndexed M] (hpairs : Indexed.count (Q × M) < indexLimit) {a : Automaton S Q}
    {b : Automaton S M} {p : Pairing} {c : Automaton S (Q × M)}
    (h : (a.combine b p).outcome = .ok c) (t : Table S (Q × M)) : c.transition ≠ .tabulated t := by
  obtain ⟨c', hc', hcombines⟩ := combine_eq_ok hpairs p a b
  obtain rfl : c' = c := Except.ok.inj (hc'.symm.trans h)
  rw [hcombines.transition_eq]
  exact nofun

/-- However an automaton was made, a table in it was made. -/
theorem Made.table {Q : Type} [Indexed Q] {a : Automaton S Q} (h : Made a) :
    ∀ t, a.transition = .tabulated t → t.Made := by
  induction h with
  | described _ hbuild => exact fun t ht => Description.table_of_build hbuild ht
  | ofTable htable _ ha =>
    intro t ht
    cases ha
    cases ht
    exact htable
  | complement _ hc ih =>
    -- the complement steps as the automaton does
    cases hc
    exact ih
  | combine ha hb hpairs hc =>
    have := ha.total.1
    have := hb.total.1
    exact fun t ht => absurd ht (transition_ne_of_combine hpairs hc t)
  | operate ha hb hpairs hc =>
    have := ha.total.1
    have := hb.total.1
    rw [operate_eq_combine] at hc
    exact fun t ht => absurd ht (transition_ne_of_combine hpairs hc t)
  | withStart q _ ih => exact ih
  | @tabulate Q _ a b _ _ hb ih =>
    cases htabulated : a.isTabulated with
    | true =>
      rw [tabulate_eq_self htabulated] at hb
      cases hb
      exact ih
    | false =>
      intro t ht
      obtain ⟨table, htable, rfl⟩ := (tabulate_eq_ok_iff htabulated).mp hb
      cases ht
      exact .ofFunction htable

end Automaton

/-! ## Both sides of the bound -/

section Bound

variable (S Q : Type) [Indexed S] [Indexed Q] [DecidableEq S] [DecidableEq Q] [Hashable S]
  [Hashable Q]

/-- What was given to make a table is what the table holds. -/
structure StoresExactly : Prop where
  /-- Up to the largest number of states every function has a table, which is made from the
  function, from the numbers of its values and from its rules. -/
  made : Indexed.count Q ≤ Table.maxStates → ∀ f : Q → S → Q, ∃ t : Table S Q, t.Stores f ∧
    Table.ofFunction (fun q s => .ok (f q s)) = .ok t ∧ Table.ofIndices (Table.numbers f) = .ok t ∧
    ∀ rules, (∀ q s r, Rule.mk q s r ∈ rules ↔ r = f q s) → (Table.ofRules rules).outcome = .ok t
  /-- A table that is made from a function holds its values, -/
  ofFunction : ∀ (f : Q → S → Checked Q) t, Table.ofFunction f = .ok t →
    ∃ g, (∀ q s, f q s = .ok (g q s)) ∧ t.Stores g
  /-- from rules their targets, -/
  ofRules : ∀ rules (t : Table S Q), (Table.ofRules rules).outcome = .ok t →
    ∃ g, (∀ q s r, Rule.mk q s r ∈ rules ↔ r = g q s) ∧ t.Stores g
  /-- and from numbers the states with these numbers. -/
  ofIndices : ∀ successors (t : Table S Q), Table.ofIndices successors = .ok t →
    ∃ g : Q → S → Q, successors = Table.numbers g ∧ t.Stores g
  /-- The table of a tabulated automaton holds its steps, -/
  tabulate : ∀ a b : Automaton S Q, a.isTabulated = false → a.tabulate.outcome = .ok b →
    ∃ g, (∀ q s, a.step q s = .ok (g q s)) ∧ b.Tabulates g
  /-- that of an automaton given by numbers the states with these numbers, -/
  numbered : ∀ start terminal successors (a : Automaton S Q),
    (Automaton.ofIndices start terminal successors).outcome = .ok a →
      ∃ g : Q → S → Q, successors = Table.numbers g ∧ a.Tabulates g
  /-- and that of a drafted automaton the targets of the rules. -/
  drafted : ∀ (d : Draft S Q) a, d.build.outcome = .ok a →
    ∃ g, (∀ q s r, Rule.mk q s r ∈ d.rules.toList ↔ r = g q s) ∧ a.Tabulates g
  /-- However an automaton was made, its table, if it has one, holds some function. -/
  automaton : ∀ a : Automaton S Q, a.Made → a.isTabulated = true → ∃ g, a.Tabulates g

/-- Nothing gives a table, whatever it is given. -/
structure RefusesAll : Prop where
  not_made : ∀ t : Table S Q, ¬t.Made
  /-- No function is evaluated, be it one that meets a fault at every pair. -/
  ofFunction : ∀ f : Q → S → Checked Q,
    (Table.ofFunction f : Checked (Table S Q)) = .error (.untabulable (Indexed.count Q))
  /-- The same holds of the steps of an automaton, of which only the attempt is recorded. -/
  tabulate : ∀ a : Automaton S Q, a.isTabulated = false → a.tabulate =
    ⟨[.tabulate (Indexed.count Q) (Indexed.count S)], .error (.untabulable (Indexed.count Q))⟩
  /-- Numbers are not looked at, -/
  ofIndices : ∀ successors, (Table.ofIndices successors : Except (Defect S Q) (Table S Q)) =
    .error (.stateSpaceTooLarge (Indexed.count Q))
  /-- not even those of the states. -/
  numbered : ∀ start terminal successors,
    (Automaton.ofIndices start terminal successors : Logged (Failure S Q) (Automaton S Q)) =
      ⟨[], .error (.defect (.stateSpaceTooLarge (Indexed.count Q)))⟩
  /-- Rules are searched for a conflict first, -/
  ofRules : ∀ rules : List (Rule S Q),
    ∃ failure, (Table.ofRules rules).outcome = .error failure ∧ Table.RulesRefused rules failure
  /-- and before that it is asked whether a draft has a start state. -/
  drafted : ∀ d : Draft S Q, ∃ failure, d.build.outcome = .error failure ∧
    (d.start? = none ∧ failure = .defect .missingStart ∨
      d.start?.isSome ∧ Table.RulesRefused d.rules.toList failure)
  automaton : ∀ a : Automaton S Q, a.Made → a.isTabulated = false

variable {S Q} [LawfulIndexed S] [LawfulIndexed Q]

/-- Within the limit, every way to a table stores what it was given. -/
theorem storesExactly (hcells : Indexed.count Q * Indexed.count S < indexLimit) :
    StoresExactly S Q where
  made hcount f := by
    have hfits : Table.fits Q = true := decide_eq_true hcount
    exact ⟨.graph f, Table.stores_graph hfits hcells f, Table.ofFunction_eq hfits f,
      Table.ofIndices_eq hfits f, fun rules hrules => Table.ofRules_eq_ok hrules hfits⟩
  ofFunction f t h := by
    obtain ⟨hfits, g, rfl, rfl⟩ := Table.ofFunction_eq_graph h
    exact ⟨g, fun _ _ => rfl, Table.stores_graph hfits hcells g⟩
  ofRules rules t h := by
    obtain ⟨hfits, g, hg, rfl⟩ := Table.ofRules_eq_graph h
    exact ⟨g, hg, Table.stores_graph hfits hcells g⟩
  ofIndices successors t h := by
    obtain ⟨hfits, g, hg, rfl⟩ := Table.ofIndices_eq_ok h
    exact ⟨g, hg, Table.stores_graph hfits hcells g⟩
  tabulate a b hcomputed h := by
    obtain ⟨t, ht, rfl⟩ := (Automaton.tabulate_eq_ok_iff hcomputed).mp h
    obtain ⟨hfits, g, hg, rfl⟩ := Table.ofFunction_eq_graph ht
    exact ⟨g, fun q s => congrFun (congrFun hg q) s, _, rfl, Table.stores_graph hfits hcells g⟩
  numbered start terminal successors a h := by
    rw [Automaton.ofIndices_outcome] at h
    obtain ⟨t, htransition, ht⟩ := Automaton.transition_of_readIndices h
    obtain ⟨hfits, g, hg, rfl⟩ := Table.ofIndices_eq_ok ht
    exact ⟨g, hg, _, htransition, Table.stores_graph hfits hcells g⟩
  drafted d a h := by
    obtain ⟨t, htransition, ht⟩ := Draft.transition_of_build h
    obtain ⟨hfits, g, hg, rfl⟩ := Table.ofRules_eq_graph ht
    exact ⟨g, hg, _, htransition, Table.stores_graph hfits hcells g⟩
  automaton a ha htabulated := by
    obtain ⟨t, htransition⟩ := Automaton.exists_tabulated htabulated
    obtain ⟨hfits, g, rfl⟩ := (ha.table t htransition).exists_graph
    exact ⟨g, _, htransition, Table.stores_graph hfits hcells g⟩

theorem refusesAll (hlarge : Table.maxStates < Indexed.count Q) : RefusesAll S Q where
  not_made _ hmade := hmade.not_large hlarge
  ofFunction := Table.ofFunction_of_large hlarge
  tabulate a hcomputed := by
    obtain ⟨f, htransition⟩ := Automaton.exists_computed hcomputed
    rw [Automaton.tabulate, htransition]
    simp only [Table.ofFunction_of_large hlarge]
    rfl
  ofIndices := Table.ofIndices_of_large hlarge
  numbered start terminal successors := by
    rw [Automaton.ofIndices, Automaton.readIndices_of_firstDefect (.tooLarge hlarge)]
    rfl
  ofRules := Table.ofRules_of_large hlarge
  drafted d := by
    rw [Draft.build_outcome]
    cases hstart : d.start? with
    | none => exact ⟨_, rfl, Or.inl ⟨rfl, rfl⟩⟩
    | some q =>
      obtain ⟨failure, hread, hrefused⟩ := Table.ofRules_of_large hlarge d.rules.toList
      exact ⟨failure, by rw [hread]; rfl, Or.inr ⟨rfl, hrefused⟩⟩
  automaton a ha := by
    refine Bool.eq_false_iff.mpr fun htabulated => ?_
    obtain ⟨t, htransition⟩ := Automaton.exists_tabulated htabulated
    exact (ha.table t htransition).not_large hlarge

/-- Stays on `false` and goes to the opposite end on `true`. -/
def mirror {n : Nat} (q : Fin n) (s : Bool) : Fin n := if s then q.rev else q

end Bound

end Automata
