import Automata.Proofs.Descriptions

/-!
# Reading descriptions by numbers

A description by numbers can have several defects at once: too many states, a start state that does
not exist, terminal states and successors that do not exist, and a list of successors that is too
short or too long. `FirstDefect` says which of them is reported, and `WellNumbered` when there is
none:

> `ofIndices_readsNumbers`: a defect is reported exactly when it is the first, numbers without a
> defect are exactly those that are accepted, and the automaton is the one that they describe.

Each defect fixes the outcome (`readIndices_of_firstDefect`), and so do numbers without one
(`readIndices_of_wellNumbered`). Since no numbers escape this distinction
(`wellNumbered_or_firstDefect`), the outcome tells on which side they are.
-/

namespace Automata

/-! ## The first number out of range -/

/-- `i` is the first of the numbers that is not below the bound. -/
def FirstBeyond (bound : Nat) (numbers : List Nat) (i : Nat) : Prop :=
  ∃ before after, numbers = before ++ i :: after ∧ (∀ j ∈ before, j < bound) ∧ bound ≤ i

/-- Searching a list from its beginning finds the first number that is out of range. -/
theorem find?_eq_some_iff_firstBeyond {bound : Nat} {numbers : List Nat} {i : Nat} :
    numbers.find? (bound ≤ ·) = some i ↔ FirstBeyond bound numbers i := by
  rw [List.find?_eq_some_iff_append, FirstBeyond]
  constructor
  · rintro ⟨hi, before, after, heq, hbefore⟩
    exact ⟨before, after, heq, fun j hj => by simpa using hbefore j hj, of_decide_eq_true hi⟩
  · rintro ⟨before, after, heq, hbefore, hi⟩
    exact ⟨decide_eq_true hi, before, after, heq, fun j hj => by simpa using hbefore j hj⟩

/-- All numbers are below the bound, or one of them is the first that is not. -/
theorem forall_lt_or_firstBeyond (bound : Nat) (numbers : List Nat) :
    (∀ i ∈ numbers, i < bound) ∨ ∃ i, FirstBeyond bound numbers i := by
  cases hfind : numbers.find? (bound ≤ ·) with
  | none => exact Or.inl (Table.find?_eq_none_iff_forall_lt.mp hfind)
  | some i => exact Or.inr ⟨i, find?_eq_some_iff_firstBeyond.mp hfind⟩

/-! ## Successors -/

namespace Table

variable {S Q : Type} [Indexed S] [Indexed Q]

/-- A successor that does not exist is reported, whether or not the length is right. -/
theorem ofIndices_of_firstBeyond (hfits : fits Q = true) {successors : List Nat} {i : Nat}
    (hfirst : FirstBeyond (Indexed.count Q) successors i) :
    (ofIndices successors : Except (Defect S Q) (Table S Q)) =
      .error (.stateOutOfRange i (Indexed.count Q)) := by
  rw [ofIndices, requireFits, if_pos hfits, ok_bind]
  simp only [find?_eq_some_iff_firstBeyond.mpr hfirst]
  rfl

/-- The length is tested last, when all numbers are known to be in range. -/
theorem ofIndices_of_length_ne (hfits : fits Q = true) {successors : List Nat}
    (hlt : ∀ i ∈ successors, i < Indexed.count Q)
    (hlength : successors.length ≠ Indexed.count Q * Indexed.count S) :
    (ofIndices successors : Except (Defect S Q) (Table S Q)) =
      .error (.tableSize (Indexed.count Q * Indexed.count S) successors.length) := by
  rw [ofIndices, requireFits, if_pos hfits, ok_bind]
  simp only [find?_eq_none_iff_forall_lt.mpr hlt, dif_neg hlength]
  rfl

end Table

namespace Automaton

variable {S Q : Type} [Indexed S] [Indexed Q]

/-! ## States -/

omit [Indexed S] in
theorem stateAt_of_le {i : Nat} (h : Indexed.count Q ≤ i) :
    (stateAt i : Except (Failure S Q) Q) =
      .error (.defect (.stateOutOfRange i (Indexed.count Q))) :=
  if_neg (Nat.not_lt_of_le h)

variable [LawfulIndexed Q]

omit [Indexed S] in
theorem stateAt_of_lt {i : Nat} (h : i < Indexed.count Q) :
    ∃ q : Q, (stateAt i : Except (Failure S Q) Q) = .ok q ∧ number q = i := by
  obtain ⟨q, _, rfl⟩ := exists_number (α := Q) h
  exact ⟨q, stateAt_number q, rfl⟩

omit [Indexed S] in
/-- A list of numbers in range is read as the list of their states. -/
theorem mapM_stateAt_of_lt {numbers : List Nat} (h : ∀ i ∈ numbers, i < Indexed.count Q) :
    ∃ states : List Q, numbers.mapM (stateAt (S := S)) = .ok states ∧
      ∀ q, q ∈ states ↔ number q ∈ numbers :=
  mapM_stateAt_eq_ok fun i hi => (stateAt_of_lt (S := S) (h i hi)).imp fun _ hq => hq.2

omit [Indexed S] in
/-- Reading a list of numbers ends at the first that is out of range. -/
theorem mapM_stateAt_of_firstBeyond {numbers : List Nat} {i : Nat}
    (hfirst : FirstBeyond (Indexed.count Q) numbers i) :
    (numbers.mapM stateAt : Except (Failure S Q) (List Q)) =
      .error (.defect (.stateOutOfRange i (Indexed.count Q))) := by
  obtain ⟨before, after, rfl, hbefore, hi⟩ := hfirst
  refine mapM_eq_error (fun j hj => ?_) (stateAt_of_le hi)
  obtain ⟨q, hq, _⟩ := stateAt_of_lt (S := S) (Q := Q) (hbefore j hj)
  exact not_fails_iff.mpr ⟨q, hq⟩

/-! ## Descriptions -/

/-- The defect that is reported for a description by numbers, if it has any. Each rule takes for
granted that the rules above it do not apply. -/
inductive FirstDefect (start : Nat) (terminal successors : List Nat) : Defect S Q → Prop where
  /-- There are too many states for a table. -/
  | tooLarge : Table.maxStates < Indexed.count Q →
    FirstDefect start terminal successors (.stateSpaceTooLarge (Indexed.count Q))
  /-- The start state does not exist. -/
  | start : Indexed.count Q ≤ Table.maxStates → Indexed.count Q ≤ start →
    FirstDefect start terminal successors (.stateOutOfRange start (Indexed.count Q))
  /-- A terminal state does not exist. The first of them is reported. -/
  | terminal {i : Nat} : Indexed.count Q ≤ Table.maxStates → start < Indexed.count Q →
    FirstBeyond (Indexed.count Q) terminal i →
    FirstDefect start terminal successors (.stateOutOfRange i (Indexed.count Q))
  /-- A successor does not exist. The first of them is reported, for lists of any length. -/
  | successor {i : Nat} : Indexed.count Q ≤ Table.maxStates → start < Indexed.count Q →
    (∀ j ∈ terminal, j < Indexed.count Q) → FirstBeyond (Indexed.count Q) successors i →
    FirstDefect start terminal successors (.stateOutOfRange i (Indexed.count Q))
  /-- The number of successors is wrong. -/
  | size : Indexed.count Q ≤ Table.maxStates → start < Indexed.count Q →
    (∀ j ∈ terminal, j < Indexed.count Q) → (∀ j ∈ successors, j < Indexed.count Q) →
    successors.length ≠ Indexed.count Q * Indexed.count S →
    FirstDefect start terminal successors
      (.tableSize (Indexed.count Q * Indexed.count S) successors.length)

/-- The numbers describe an automaton over the symbols `S` with the states `Q`. -/
structure WellNumbered (S Q : Type) [Indexed S] [Indexed Q] (start : Nat)
    (terminal successors : List Nat) : Prop where
  count_le : Indexed.count Q ≤ Table.maxStates
  start_lt : start < Indexed.count Q
  terminal_lt : ∀ i ∈ terminal, i < Indexed.count Q
  successors_lt : ∀ i ∈ successors, i < Indexed.count Q
  length_successors : successors.length = Indexed.count Q * Indexed.count S

/-- The automaton is described by the numbers. As for every table, the number of cells has to be an
index for the successors to be read. -/
structure IsNumbered (a : Automaton S Q) (start : Nat) (terminal successors : List Nat) :
    Prop where
  start : index a.start = .ok start
  isTabulated : a.isTabulated = true
  isTerminal : ∀ q, a.isTerminal q = .ok (decide (number q ∈ terminal))
  step : Indexed.count Q * Indexed.count S < indexLimit → ∀ q s, ∃ r, a.step q s = .ok r ∧
    successors[number q * Indexed.count S + number s]? = some (number r)

/-- What comes of numbers is what `FirstDefect`, `WellNumbered` and `IsNumbered` say. -/
structure ReadsNumbers (start : Nat) (terminal successors : List Nat)
    (outcome : Except (Failure S Q) (Automaton S Q)) : Prop where
  /-- A failure is the report of the first defect, which is always reported. -/
  defect : ∀ failure, outcome = .error failure ↔
    ∃ d, failure = .defect d ∧ FirstDefect start terminal successors d
  /-- Numbers are accepted exactly when they have no defect. -/
  accepted : (∃ a, outcome = .ok a) ↔ WellNumbered S Q start terminal successors
  /-- The automaton is the one that they describe. -/
  automaton : ∀ a, outcome = .ok a → a.IsNumbered start terminal successors

variable {start : Nat} {terminal successors : List Nat}

variable (S Q) in
omit [LawfulIndexed Q] in
/-- Either nothing is wrong, or one of the defects is the first to be found. So the implications
below have converses. -/
theorem wellNumbered_or_firstDefect (start : Nat) (terminal successors : List Nat) :
    WellNumbered S Q start terminal successors ∨
      ∃ d : Defect S Q, FirstDefect start terminal successors d := by
  -- the tests are made in the order of the rules, so that each finds the ones before it passed
  by_cases hcount : Indexed.count Q ≤ Table.maxStates
  case neg => exact Or.inr ⟨_, .tooLarge (Nat.lt_of_not_le hcount)⟩
  by_cases hstart : start < Indexed.count Q
  case neg => exact Or.inr ⟨_, .start hcount (Nat.le_of_not_lt hstart)⟩
  obtain hterminal | ⟨i, hi⟩ := forall_lt_or_firstBeyond (Indexed.count Q) terminal
  case inr => exact Or.inr ⟨_, .terminal hcount hstart hi⟩
  obtain hsuccessors | ⟨i, hi⟩ := forall_lt_or_firstBeyond (Indexed.count Q) successors
  case inr => exact Or.inr ⟨_, .successor hcount hstart hterminal hi⟩
  by_cases hlength : successors.length = Indexed.count Q * Indexed.count S
  case neg => exact Or.inr ⟨_, .size hcount hstart hterminal hsuccessors hlength⟩
  exact Or.inl ⟨hcount, hstart, hterminal, hsuccessors, hlength⟩

omit [LawfulIndexed Q] in
/-- Few enough states let reading go on to the states and the successors. -/
theorem readIndices_eq (hfits : Table.fits Q = true) :
    (readIndices start terminal successors : Except (Failure S Q) (Automaton S Q)) =
      (stateAt start >>= fun q => terminal.mapM stateAt >>= fun states =>
        (Table.ofIndices successors).mapError .defect >>= fun table =>
        (StateSet.ofList states).mapError .fault >>= fun set =>
        .ok ⟨q, set, .tabulated table⟩) := by
  simp only [readIndices, Table.requireFits, if_pos hfits]
  rfl

/-- A defect is reported when those that are looked for before it are not there. -/
theorem readIndices_of_firstDefect {d : Defect S Q}
    (h : FirstDefect start terminal successors d) :
    (readIndices start terminal successors : Except (Failure S Q) _) = .error (.defect d) := by
  have hfits : Indexed.count Q ≤ Table.maxStates → Table.fits Q = true := decide_eq_true
  -- everything that is read before the defect gives a value, and the chain ends at the defect
  cases h with
  | tooLarge hlarge =>
    have hlarge : Table.fits Q = false := decide_eq_false (Nat.not_le_of_lt hlarge)
    simp only [readIndices, Table.requireFits, hlarge]
    rfl
  | start hcount hstart => rw [readIndices_eq (hfits hcount), stateAt_of_le hstart, error_bind]
  | terminal hcount hstart hfirst =>
    obtain ⟨q, hq, _⟩ := stateAt_of_lt (S := S) hstart
    rw [readIndices_eq (hfits hcount), hq, ok_bind, mapM_stateAt_of_firstBeyond hfirst, error_bind]
  | successor hcount hstart hterminal hfirst =>
    obtain ⟨q, hq, _⟩ := stateAt_of_lt (S := S) hstart
    obtain ⟨states, hstates, _⟩ := mapM_stateAt_of_lt (S := S) hterminal
    rw [readIndices_eq (hfits hcount), hq, ok_bind, hstates, ok_bind,
      Table.ofIndices_of_firstBeyond (hfits hcount) hfirst]
    rfl
  | size hcount hstart hterminal hsuccessors hlength =>
    obtain ⟨q, hq, _⟩ := stateAt_of_lt (S := S) hstart
    obtain ⟨states, hstates, _⟩ := mapM_stateAt_of_lt (S := S) hterminal
    rw [readIndices_eq (hfits hcount), hq, ok_bind, hstates, ok_bind,
      Table.ofIndices_of_length_ne (hfits hcount) hsuccessors hlength]
    rfl

theorem readIndices_of_wellNumbered [LawfulIndexed S]
    (h : WellNumbered S Q start terminal successors) :
    ∃ a : Automaton S Q, readIndices start terminal successors = .ok a ∧
      a.IsNumbered start terminal successors := by
  have hfits : Table.fits Q = true := decide_eq_true h.count_le
  obtain ⟨q, hq, hstart⟩ := stateAt_of_lt (S := S) h.start_lt
  obtain ⟨states, hstates, hmemStates⟩ := mapM_stateAt_of_lt (S := S) h.terminal_lt
  obtain ⟨set, hset, hmem⟩ := StateSet.ofList_eq_ok states
  -- numbers that are in range and as many as there are pairs are the values of a function
  obtain ⟨f, rfl⟩ := Table.exists_numbers h.length_successors h.successors_lt
  refine ⟨⟨q, set, .tabulated (.graph f)⟩, ?_, ?_⟩
  · rw [readIndices_eq hfits, hq, ok_bind, hstates, ok_bind, Table.ofIndices_eq hfits, mapError_ok,
      ok_bind, hset, mapError_ok, ok_bind]
  · exact {
      start := by rw [index_eq, hstart]
      isTabulated := rfl
      isTerminal := fun r => by
        rw [isTerminal_eq]
        simp only [hmem, hmemStates]
      step := fun hcells r s =>
        ⟨f r s, Table.get_graph hfits hcells f r s, Table.getElem?_numbers f r s⟩ }

/-- Reading fails exactly with the report of the first defect. -/
theorem readIndices_eq_error_iff [LawfulIndexed S] {failure : Failure S Q} :
    (readIndices start terminal successors : Except _ (Automaton S Q)) = .error failure ↔
      ∃ d, failure = .defect d ∧ FirstDefect start terminal successors d := by
  constructor
  · intro hfailure
    obtain hwell | ⟨d, hd⟩ := wellNumbered_or_firstDefect S Q start terminal successors
    · obtain ⟨a, ha, _⟩ := readIndices_of_wellNumbered hwell
      rw [ha] at hfailure
      cases hfailure
    · rw [readIndices_of_firstDefect hd] at hfailure
      exact ⟨d, (Except.error.inj hfailure).symm, hd⟩
  · intro hdefect
    obtain ⟨d, rfl, hd⟩ := hdefect
    exact readIndices_of_firstDefect hd

/-- Only numbers without a defect are read as an automaton. -/
theorem wellNumbered_of_readIndices [LawfulIndexed S] {a : Automaton S Q}
    (h : readIndices start terminal successors = .ok a) :
    WellNumbered S Q start terminal successors ∧ a.IsNumbered start terminal successors := by
  obtain hwell | ⟨d, hd⟩ := wellNumbered_or_firstDefect S Q start terminal successors
  · obtain ⟨b, hb, hnumbered⟩ := readIndices_of_wellNumbered hwell
    obtain rfl : b = a := Except.ok.inj (hb.symm.trans h)
    exact ⟨hwell, hnumbered⟩
  · rw [readIndices_of_firstDefect hd] at h
    cases h

omit [LawfulIndexed Q] in
theorem ofIndices_outcome (start : Nat) (terminal successors : List Nat) :
    (ofIndices start terminal successors : Logged (Failure S Q) _).outcome =
      readIndices start terminal successors := by
  simp only [ofIndices, make, record, Journal.outcome_bind, Journal.outcome_liftM]
  cases (readIndices start terminal successors : Except (Failure S Q) (Automaton S Q)) <;> rfl

/-- **What is read from numbers.** Every defect is found, the first is reported, and numbers without
a defect give the automaton that they describe. -/
theorem ofIndices_readsNumbers [LawfulIndexed S] (start : Nat) (terminal successors : List Nat) :
    ReadsNumbers start terminal successors
      (ofIndices start terminal successors : Logged (Failure S Q) _).outcome := by
  rw [ofIndices_outcome]
  exact {
    defect := fun failure => readIndices_eq_error_iff
    accepted := by
      constructor
      · intro h
        obtain ⟨a, ha⟩ := h
        exact (wellNumbered_of_readIndices ha).1
      · intro h
        obtain ⟨a, ha, _⟩ := readIndices_of_wellNumbered h
        exact ⟨a, ha⟩
    automaton := fun a ha => (wellNumbered_of_readIndices ha).2 }

/-- Numbers that describe the automaton for the words with an even number of `true`, and three times
numbers with defects: two terminal states and the successor do not exist; a successor does not exist
and the others are missing; two successors are missing. -/
theorem ofIndices_readsNumbers_evenlyTrue :
    (∃ a, (ofIndices 0 [0] [0, 1, 1, 0] : Logged (Failure Bool Bool) _).outcome = .ok a ∧
      a.start = false ∧ (∀ q, a.isTerminal q = .ok !q) ∧
      ∀ q s, a.step q s = .ok (xor q s)) ∧
    (ofIndices 0 [1, 7, 9] [5] : Logged (Failure Bool Bool) (Automaton Bool Bool)).outcome =
      .error (.defect (.stateOutOfRange 7 2)) ∧
    (ofIndices 0 [] [1, 3] : Logged (Failure Bool Bool) (Automaton Bool Bool)).outcome =
      .error (.defect (.stateOutOfRange 3 2)) ∧
    (ofIndices 0 [] [1, 0] : Logged (Failure Bool Bool) (Automaton Bool Bool)).outcome =
      .error (.defect (.tableSize 4 2)) := by
  refine ⟨?_, ?_, ?_, ?_⟩
  · have hreads := ofIndices_readsNumbers (S := Bool) (Q := Bool) 0 [0] [0, 1, 1, 0]
    have hwell : WellNumbered Bool Bool 0 [0] [0, 1, 1, 0] :=
      ⟨by decide, by decide, by decide, by decide, by decide⟩
    have hxor : ∀ q s : Bool, [0, 1, 1, 0][number q * Indexed.count Bool + number s]? =
        some (number (xor q s)) := by decide
    obtain ⟨a, ha⟩ := hreads.accepted.mpr hwell
    obtain ⟨hstart, _, hterminal, hstep⟩ := hreads.automaton a ha
    refine ⟨a, ha, ?_, fun q => ?_, fun q s => ?_⟩
    · exact number_inj.mp (number_of_index hstart)
    · rw [hterminal]
      cases q <;> rfl
    · obtain ⟨r, hr, hnumber⟩ := hstep (by decide) q s
      rw [hr, number_inj.mp (Option.some.inj (hnumber.symm.trans (hxor q s)))]
  · exact ((ofIndices_readsNumbers 0 [1, 7, 9] [5]).defect _).mpr ⟨_, rfl,
      .terminal (by decide) (by decide) ⟨[1], [9], rfl, by decide, by decide⟩⟩
  · exact ((ofIndices_readsNumbers 0 [] [1, 3]).defect _).mpr ⟨_, rfl,
      .successor (by decide) (by decide) (by decide) ⟨[1], [], rfl, by decide, by decide⟩⟩
  · exact ((ofIndices_readsNumbers 0 [] [1, 0]).defect _).mpr ⟨_, rfl,
      .size (by decide) (by decide) (by decide) (by decide) (by decide)⟩

end Automaton

end Automata
