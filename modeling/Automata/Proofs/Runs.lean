import Automata.Automaton.Basic
import Automata.Proofs.StateSets

/-!
# Runs of partial automata

A transition function may meet faults. A run then gives a state as long as no step on its way does,
and a run over a longer word is the run over its first part continued over the rest.
`Automaton.Total` says that no step meets a fault at all, `Automaton.Unfailing` that no run from the
start state does, which leaves the states that no word leads to out of the account.
-/

namespace Automata.Automaton

variable {S Q : Type} [Indexed S] [Indexed Q]

/-- A run over a word takes the step for its first symbol and goes on from there. -/
theorem run_cons (a : Automaton S Q) (q : Q) (s : S) (word : List S) :
    a.run q (s :: word) = a.step q s >>= fun r => a.run r word := by
  rw [run]
  cases a.step q s <;> rfl

/-- Steps depend on the transition function only. -/
theorem step_congr {a b : Automaton S Q} (h : a.transition = b.transition) (q : Q) (s : S) :
    a.step q s = b.step q s := by
  rw [step, step, h]

/-- Automata with the same steps have the same runs. -/
theorem run_congr {a b : Automaton S Q} (h : ∀ q s, a.step q s = b.step q s) :
    ∀ (word : List S) (q : Q), a.run q word = b.run q word := by
  intro word
  induction word with
  | nil => intro _; rfl
  | cons s word ih =>
    intro q
    rw [run_cons, run_cons, h q s]
    exact congrArg (b.step q s >>= ·) (funext fun r => ih r)

/-- Runs compose. -/
theorem run_append (a : Automaton S Q) : ∀ (u v : List S) (q : Q),
    a.run q (u ++ v) = a.run q u >>= fun r => a.run r v := by
  intro u v
  induction u with
  | nil => intro q; rfl
  | cons s u ih =>
    intro q
    rw [List.cons_append, run_cons, run_cons]
    cases a.step q s with
    | error f => rfl
    | ok r => exact ih r

/-- A run over one more symbol takes one more step. -/
theorem run_concat {a : Automaton S Q} {q r : Q} {word : List S} (h : a.run q word = .ok r)
    (s : S) : a.run q (word ++ [s]) = a.step r s := by
  rw [run_append, h, ok_bind, run_cons]
  cases a.step r s <;> rfl

theorem run_concat_eq_ok {a : Automaton S Q} {q r : Q} {word : List S} {s : S} :
    a.run q (word ++ [s]) = .ok r ↔ ∃ p, a.run q word = .ok p ∧ a.step p s = .ok r := by
  constructor
  · intro h
    rw [run_append, bind_eq_ok] at h
    obtain ⟨p, hp, hr⟩ := h
    exact ⟨p, hp, (run_concat (show a.run p [] = .ok p from rfl) s).symm.trans hr⟩
  · intro h
    obtain ⟨p, hp, hr⟩ := h
    rw [run_concat hp, hr]

/-- A run fails where a run over a first part of its word does. -/
theorem fails_run_append {a : Automaton S Q} {q : Q} {u : List S} (h : Fails (a.run q u))
    (v : List S) : Fails (a.run q (u ++ v)) := by
  rw [run_append, fails_bind]
  exact Or.inl h

/-- A run that fails comes to a state and a symbol at which the step fails. -/
theorem exists_failing_step {a : Automaton S Q} : ∀ {word : List S} {q : Q},
    Fails (a.run q word) → ∃ u s v r, word = u ++ s :: v ∧ a.run q u = .ok r ∧
      Fails (a.step r s) := by
  intro word
  induction word with
  | nil => intro q h; exact absurd h (not_fails_ok q)
  | cons s word ih =>
    intro q h
    rw [run_cons, fails_bind] at h
    rcases h with hstep | ⟨r, hr, hrest⟩
    · exact ⟨[], s, word, q, rfl, rfl, hstep⟩
    · obtain ⟨u, t, v, p, rfl, hp, hfail⟩ := ih hrest
      refine ⟨s :: u, t, v, p, rfl, ?_, hfail⟩
      rw [run_cons, hr]
      exact hp

/-! ## Acceptance -/

/-- The word leads from the start state to a terminal state. -/
def Accepts (a : Automaton S Q) (word : List S) : Prop :=
  ∃ q, a.run a.start word = .ok q ∧ q ∈ a.terminal

section Lawful

variable [LawfulIndexed Q]

theorem isTerminal_eq (a : Automaton S Q) (q : Q) :
    a.isTerminal q = .ok (decide (q ∈ a.terminal)) := StateSet.contains_eq _ _

/-- What is answered to a word is whether its run ends in a terminal state. -/
theorem accepts_of_run {a : Automaton S Q} {word : List S} {q : Q}
    (h : a.run a.start word = .ok q) : a.accepts word = .ok (decide (q ∈ a.terminal)) := by
  rw [accepts, h, ok_bind, isTerminal_eq]

/-- A word gets no answer exactly when the run on it fails. -/
theorem fails_accepts {a : Automaton S Q} {word : List S} :
    Fails (a.accepts word) ↔ Fails (a.run a.start word) := by
  cases h : a.run a.start word with
  | error fault => simp [accepts, h]
  | ok q => simp [accepts_of_run h]

/-- Started in another state, the automaton accepts a word as its run from there ends. -/
theorem accepts_withStart {a : Automaton S Q} {word : List S} {q r : Q}
    (h : a.run q word = .ok r) :
    (a.withStart q).accepts word = .ok (decide (r ∈ a.terminal)) := by
  refine accepts_of_run (a := a.withStart q) ?_
  exact (run_congr (a := a.withStart q) (b := a) (fun _ _ => rfl) word q).trans h

/-- The answer is yes exactly for the accepted words; a word whose run fails is not among them. -/
theorem accepts_eq_true {a : Automaton S Q} {word : List S} :
    a.accepts word = .ok true ↔ a.Accepts word := by
  rw [accepts, bind_eq_ok]
  refine exists_congr fun q => and_congr_right fun _ => ?_
  rw [isTerminal_eq, Except.ok.injEq, decide_eq_true_eq]

end Lawful

/-! ## Total automata -/

/-- No step meets a fault. -/
def Total (a : Automaton S Q) : Prop := ∀ q s, ∃ r, a.step q s = .ok r

/-- Where no step meets a fault, no run does. -/
theorem Total.run_ok {a : Automaton S Q} (h : a.Total) :
    ∀ (word : List S) (q : Q), ∃ r, a.run q word = .ok r := by
  intro word
  induction word with
  | nil => intro q; exact ⟨q, rfl⟩
  | cons s word ih =>
    intro q
    obtain ⟨r, hr⟩ := h q s
    rw [run_cons, hr]
    exact ih r

/-! ## Automata whose runs do not fail -/

/-- No run from the start state meets a fault. -/
def Unfailing (a : Automaton S Q) : Prop := ∀ word, ¬Fails (a.run a.start word)

theorem Unfailing.run_ok {a : Automaton S Q} (h : a.Unfailing) (word : List S) :
    ∃ q, a.run a.start word = .ok q := not_fails_iff.mp (h word)

/-- Where no run fails, the steps from the states that runs come to do not fail either. -/
theorem Unfailing.step_ok {a : Automaton S Q} (h : a.Unfailing) {word : List S} {q : Q}
    (hq : a.run a.start word = .ok q) (s : S) : ∃ r, a.step q s = .ok r := by
  rw [← run_concat hq]
  exact h.run_ok (word ++ [s])

/-- A total automaton is unfailing, but not the other way round: an unfailing one may lack steps
from states that no run comes to. -/
theorem Total.unfailing {a : Automaton S Q} (h : a.Total) : a.Unfailing := fun word =>
  not_fails_iff.mpr (h.run_ok word a.start)

/-- Where the states that satisfy `P` have their successors among themselves and the start state is
one of them, no run fails, whatever happens in the other states. -/
theorem unfailing_of_closed {a : Automaton S Q} {P : Q → Prop} (hstart : P a.start)
    (hstep : ∀ q s, P q → ∃ r, a.step q s = .ok r ∧ P r) : a.Unfailing := by
  have hrun : ∀ (word : List S) (q : Q), P q → ¬Fails (a.run q word) := by
    intro word
    induction word with
    | nil => intro q _; exact not_fails_ok q
    | cons s word ih =>
      intro q hq
      obtain ⟨r, hr, hPr⟩ := hstep q s hq
      rw [run_cons, hr]
      exact ih r hPr
  exact fun word => hrun word a.start hstart

/-- Every word gets an answer. -/
theorem Unfailing.accepts_ok [LawfulIndexed Q] {a : Automaton S Q} (h : a.Unfailing)
    (word : List S) : ∃ x, a.accepts word = .ok x := by
  obtain ⟨q, hq⟩ := h.run_ok word
  exact ⟨_, accepts_of_run hq⟩

theorem not_unfailing {a : Automaton S Q} :
    ¬a.Unfailing ↔ ∃ word, Fails (a.run a.start word) := by
  rw [Unfailing, Classical.not_forall]
  exact exists_congr fun word => Classical.not_not

end Automata.Automaton
