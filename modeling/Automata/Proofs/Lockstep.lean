import Automata.Proofs.Decisions
import Automata.Proofs.Pieces

/-!
# Runs in lock-step

A combination of two automata steps both on each symbol, the left one first, so a fault of either
ends the run of the pair. `Automaton.FaultAt` says at which symbol of a word a run meets which
fault, and a run comes to a position exactly when it meets no fault before it (`run_take_ok_iff`). A
step of the pair meets the fault of the left component, or that of the right one where the left
meets none (`Combines.step_eq_error`); carried over words this is `Combines.faultAt_iff`: the pair
meets the earlier of the two faults, and the left one where both are met at the same symbol.

> `combine_lockstep`: whichever way two automata are combined and from whichever states they run,
> the pair ends where the two runs end, and otherwise meets the first fault that one of them meets.
-/

namespace Automata.Automaton

variable {S Q M : Type} [Indexed S] [Indexed Q] [Indexed M]

/-! ## Where a run meets a fault -/

/-- The run over the word comes to the symbol at position `i` and meets the fault there. -/
def FaultAt (a : Automaton S Q) (q : Q) (word : List S) (i : Nat) (fault : Fault) : Prop :=
  ∃ r s, a.run q (word.take i) = .ok r ∧ word[i]? = some s ∧ a.step r s = .error fault

section FaultAt

variable {a : Automaton S Q} {fault : Fault}

theorem not_faultAt_nil (q : Q) (i : Nat) : ¬a.FaultAt q [] i fault := by
  intro h
  obtain ⟨_, s, _, hs, _⟩ := h
  rw [List.getElem?_nil] at hs
  cases hs

/-- Where the first step fails the run meets its fault, and no other. -/
theorem faultAt_cons_of_error {q : Q} {s : S} {word : List S} {i : Nat} {f : Fault}
    (h : a.step q s = .error f) : a.FaultAt q (s :: word) i fault ↔ i = 0 ∧ f = fault := by
  unfold FaultAt
  cases i with
  | zero => simp [run, h]
  | succ i => simp [run_cons, h]

/-- Behind its first step a run goes on from the successor. -/
theorem faultAt_cons_of_ok {q r : Q} {s : S} {word : List S} {i : Nat}
    (h : a.step q s = .ok r) :
    a.FaultAt q (s :: word) i fault ↔ ∃ j, i = j + 1 ∧ a.FaultAt r word j fault := by
  unfold FaultAt
  cases i with
  | zero => simp [run, h]
  | succ i => simp [run_cons, h]

/-- A run fails with the fault that it meets at one of the symbols. -/
theorem run_eq_error_iff : ∀ (word : List S) (q : Q),
    a.run q word = .error fault ↔ ∃ i, a.FaultAt q word i fault := by
  intro word
  induction word with
  | nil =>
    intro q
    exact iff_of_false (fun h => nomatch h) fun ⟨i, h⟩ => not_faultAt_nil q i h
  | cons s word ih =>
    intro q
    rw [run_cons]
    cases hstep : a.step q s with
    | error f =>
      simp only [faultAt_cons_of_error hstep, error_bind, Except.error.injEq, exists_eq_left]
    | ok r =>
      rw [ok_bind, ih r]
      simp only [faultAt_cons_of_ok hstep]
      constructor
      · intro h
        obtain ⟨j, hj⟩ := h
        exact ⟨j + 1, j, rfl, hj⟩
      · intro h
        obtain ⟨_, j, _, hj⟩ := h
        exact ⟨j, hj⟩

/-- A run comes to a position exactly when it meets no fault before it. -/
theorem run_take_ok_iff : ∀ (word : List S) (q : Q) (i : Nat),
    (∃ r, a.run q (word.take i) = .ok r) ↔ ∀ j g, a.FaultAt q word j g → i ≤ j := by
  intro word
  induction word with
  | nil =>
    intro q i
    rw [List.take_nil]
    exact iff_of_true ⟨q, rfl⟩ fun j g h => absurd h (not_faultAt_nil q j)
  | cons s word ih =>
    intro q i
    cases i with
    | zero => exact iff_of_true ⟨q, rfl⟩ fun j g _ => Nat.zero_le j
    | succ i =>
      rw [List.take_succ_cons, run_cons]
      cases hstep : a.step q s with
      | error f =>
        -- the fault at the first symbol keeps the run from every later position
        refine iff_of_false (fun ⟨r, hr⟩ => nomatch hr) fun h => ?_
        exact Nat.not_succ_le_zero i (h 0 f ((faultAt_cons_of_error hstep).mpr ⟨rfl, rfl⟩))
      | ok r =>
        rw [ok_bind, ih r i]
        simp only [faultAt_cons_of_ok hstep]
        constructor
        · intro h _ g hj
          obtain ⟨j, rfl, hj⟩ := hj
          exact Nat.succ_le_succ (h j g hj)
        · intro h j g hj
          exact Nat.le_of_succ_le_succ (h (j + 1) g ⟨j, rfl, hj⟩)

end FaultAt

/-! ## Two runs side by side -/

namespace Combines

variable {op : Bool → Bool → Bool} {a : Automaton S Q} {b : Automaton S M}
  {c : Automaton S (Q × M)} {fault : Fault}

/-- A step of the pair meets the fault of the left component, or of the right one behind it. -/
theorem step_eq_error (h : Combines op a b c) {q : Q} {m : M} {s : S} :
    c.step (q, m) s = .error fault ↔
      a.step q s = .error fault ∨ (∃ r, a.step q s = .ok r) ∧ b.step m s = .error fault := by
  rw [h.step_eq]
  cases a.step q s with
  | error f => simp
  | ok r => cases b.step m s <;> simp

/-- The pair meets the fault that the left component meets no later than the right one meets any,
and the fault that the right one meets before the left one meets any. -/
theorem faultAt_iff (h : Combines op a b c) {q : Q} {m : M} {word : List S} {i : Nat} :
    c.FaultAt (q, m) word i fault ↔
      (a.FaultAt q word i fault ∧ ∀ j g, b.FaultAt m word j g → i ≤ j) ∨
        (b.FaultAt m word i fault ∧ ∀ j g, a.FaultAt q word j g → i < j) := by
  constructor
  · intro hfault
    obtain ⟨⟨x, y⟩, s, hrun, hs, hstep⟩ := hfault
    obtain ⟨hx, hy⟩ := (h.run_eq_ok _ q x m y).mp hrun
    rcases h.step_eq_error.mp hstep with hleft | ⟨⟨x', hx'⟩, hright⟩
    · exact Or.inl ⟨⟨x, s, hx, hs, hleft⟩, (run_take_ok_iff word m i).mp ⟨y, hy⟩⟩
    · -- the left component has gone past the symbol
      have hpast : a.run q (word.take (i + 1)) = .ok x' := by
        rw [List.take_add_one, hs, Option.toList_some, run_concat hx, hx']
      exact Or.inr ⟨⟨y, s, hy, hs, hright⟩, (run_take_ok_iff word q (i + 1)).mp ⟨x', hpast⟩⟩
  · intro hfirst
    rcases hfirst with ⟨⟨x, s, hx, hs, hleft⟩, hlater⟩ | ⟨⟨y, s, hy, hs, hright⟩, hlater⟩
    · obtain ⟨y, hy⟩ := (run_take_ok_iff word m i).mpr hlater
      exact ⟨(x, y), s, (h.run_eq_ok _ q x m y).mpr ⟨hx, hy⟩, hs,
        h.step_eq_error.mpr (Or.inl hleft)⟩
    · obtain ⟨x', hpast⟩ := (run_take_ok_iff word q (i + 1)).mpr hlater
      rw [List.take_add_one, hs, Option.toList_some] at hpast
      obtain ⟨x, hx, hx'⟩ := run_concat_eq_ok.mp hpast
      exact ⟨(x, y), s, (h.run_eq_ok _ q x m y).mpr ⟨hx, hy⟩, hs,
        h.step_eq_error.mpr (Or.inr ⟨⟨x', hx'⟩, hright⟩)⟩

end Combines

/-- **Combined automata run in lock-step.** Whichever way two automata are combined, and from
whichever states they run, reachable or not: the run of the pair ends in two states exactly when the
two runs end in them, and fails exactly when one of the two fails. It fails with the fault that is
met at the earliest symbol, and with that of the left automaton where both meet one there. As for
every type of pairs, the number of pairs of states has to be an index. -/
theorem combine_lockstep [LawfulIndexed Q] [LawfulIndexed M]
    (hfits : Indexed.count (Q × M) < indexLimit) (p : Pairing) (l : Automaton S Q)
    (m : Automaton S M) :
    ∃ c, (l.combine m p).outcome = .ok c ∧ ∀ (ql : Q) (qm : M) (word : List S),
      (∀ x y, c.run (ql, qm) word = .ok (x, y) ↔
        l.run ql word = .ok x ∧ m.run qm word = .ok y) ∧
      (Fails (c.run (ql, qm) word) ↔ Fails (l.run ql word) ∨ Fails (m.run qm word)) ∧
      (∀ fault, c.run (ql, qm) word = .error fault ↔ ∃ i, c.FaultAt (ql, qm) word i fault) ∧
      ∀ i fault, c.FaultAt (ql, qm) word i fault ↔
        (l.FaultAt ql word i fault ∧ ∀ j g, m.FaultAt qm word j g → i ≤ j) ∨
          (m.FaultAt qm word i fault ∧ ∀ j g, l.FaultAt ql word j g → i < j) := by
  obtain ⟨c, hc, h⟩ := combine_eq_ok hfits p l m
  refine ⟨c, hc, fun ql qm word => ⟨fun x y => h.run_eq_ok word ql x qm y,
    h.fails_run word ql qm, fun fault => ?_, fun i fault => h.faultAt_iff⟩⟩
  exact run_eq_error_iff word (ql, qm)

/-- From the state `true` a second `true` is refused, and from the state `2`, to which no word
leads, every symbol. Of two faults at the first symbol the left one is met, and otherwise the
earlier. -/
theorem combine_lockstep_noTwoTrues :
    Indexed.count (Bool × Fin 4) < indexLimit ∧
      ∃ c, (Runner.noTwoTrues.combine endsInFalse .union).outcome = .ok c ∧
        c.run (false, 0) [true, false] = .ok (false, 0) ∧
        c.run (true, 2) [true] = .error (.beyondNamed "bool" 2) ∧
        c.run (false, 2) [true, true] = .error (.beyondBound 2 2) := by
  have hfits : Indexed.count (Bool × Fin 4) < indexLimit := by decide
  obtain ⟨c, hc, hruns⟩ := combine_lockstep hfits .union Runner.noTwoTrues endsInFalse
  refine ⟨hfits, c, hc, ?_, ?_, ?_⟩
  · obtain ⟨hends, _⟩ := hruns false 0 [true, false]
    exact (hends false 0).mpr ⟨rfl, rfl⟩
  · obtain ⟨_, _, hfails, hfirst⟩ := hruns true 2 [true]
    refine (hfails _).mpr ⟨0, (hfirst 0 _).mpr (Or.inl ⟨⟨true, true, rfl, rfl, rfl⟩, ?_⟩)⟩
    exact fun j _ _ => Nat.zero_le j
  · obtain ⟨_, _, hfails, hfirst⟩ := hruns false 2 [true, true]
    refine (hfails _).mpr ⟨0, (hfirst 0 _).mpr (Or.inr ⟨⟨2, true, rfl, rfl, rfl⟩, ?_⟩)⟩
    intro j g hj
    obtain ⟨i, rfl, _⟩ := (faultAt_cons_of_ok rfl).mp hj
    exact Nat.succ_pos i

end Automata.Automaton
