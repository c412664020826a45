import Mathlib.Data.List.Basic
import Automata.Automaton.Batch
import Automata.Proofs.Pieces
import Automata.Proofs.Tabulation

/-!
# Batches in order

A batch may be cut into pieces, the pieces again, and so on, as the workers are free to take them.
None of it shows: whichever way a list is cut, putting the answers of the pieces together gives what
evaluating the list from front to back gives (`Splitting.evaluate_eq_mapM`, by induction on the
cuts). So the settings and the schedule leave no trace but the log record.

> `batch_answers_in_order`: a batch fails exactly when the run on one of its words does, and
> otherwise its answers are, place by place, the answers to its words.
-/

namespace Automata

/-- Evaluating the pieces of a list and putting their answers together is evaluating the list. -/
theorem Splitting.evaluate_eq_mapM {α β : Type} (f : α → Checked β) (p : Splitting) :
    ∀ items : List α, p.evaluate f items = items.mapM f := by
  induction p with
  | whole => exact fun items => rfl
  | cut position left right ihleft ihright =>
    intro items
    rw [evaluate, ihleft, ihright, ← List.mapM_append, List.take_append_drop]

/-- A list whose items all have an answer has the list of these answers. -/
theorem exists_answers {α β : Type} {f : α → Checked β} {items : List α}
    (h : ∀ x ∈ items, ¬Fails (f x)) :
    ∃ answers, items.mapM f = .ok answers ∧ answers.map .ok = items.map f := by
  refine mapM_ok_map items fun x hx => ?_
  obtain ⟨y, hy⟩ := not_fails_iff.mp (h x hx)
  exact ⟨y, hy, hy.symm⟩

namespace Automaton

theorem batch_outcome {S β : Type} (query : BatchQuery) (f : List S → Checked β)
    (settings : BatchSettings) (schedule : Schedule) (words : List (List S)) :
    (batch query f settings schedule words).outcome = words.mapM f := by
  rw [batch, Journal.outcome_bind, Journal.outcome_liftM, Splitting.evaluate_eq_mapM]
  rfl

variable {S Q : Type} [Indexed S] [Indexed Q]

/-- **Batches are answered in order, however they are cut.** Whatever the settings are and however
the words are distributed, asking whether words are accepted, or in which states their runs end,
fails exactly when the run on one of the words fails. Otherwise there is one answer to each word, in
the order of the words: whether the word is accepted, and the state in which the run on it ends.
Place by place the former tells whether the latter is terminal. -/
theorem batch_answers_in_order [LawfulIndexed Q] (a : Automaton S Q) (words : List (List S))
    (settings : BatchSettings) (schedule : Schedule) :
    (Fails (a.acceptsBatch words settings schedule).outcome ↔
      ∃ w ∈ words, Fails (a.run a.start w)) ∧
    (Fails (a.runBatch words settings schedule).outcome ↔
      ∃ w ∈ words, Fails (a.run a.start w)) ∧
    ((∀ w ∈ words, ¬Fails (a.run a.start w)) →
      ∃ answers states, (a.acceptsBatch words settings schedule).outcome = .ok answers ∧
        (a.runBatch words settings schedule).outcome = .ok states ∧
        answers.map .ok = words.map a.accepts ∧ states.map .ok = words.map (a.run a.start) ∧
        answers.map .ok = states.map a.isTerminal) := by
  rw [acceptsBatch, runBatch, batch_outcome, batch_outcome, fails_mapM, fails_mapM]
  refine ⟨exists_congr fun w => and_congr_right' fails_accepts, Iff.rfl, fun hruns => ?_⟩
  obtain ⟨answers, hanswers, haccepts⟩ := exists_answers fun w hw =>
    fails_accepts.not.mpr (hruns w hw)
  obtain ⟨states, hstates, hends⟩ := exists_answers hruns
  refine ⟨answers, states, hanswers, hstates, haccepts, hends, ?_⟩
  calc answers.map .ok = words.map a.accepts := haccepts
    _ = (words.map (a.run a.start)).map (· >>= a.isTerminal) := by
      rw [List.map_map]
      rfl
    _ = (states.map .ok).map (· >>= a.isTerminal) := by rw [hends]
    _ = states.map a.isTerminal := by
      rw [List.map_map]
      rfl

/-- Accepts the words that end in `true`, and has no successor for a second `true` in a row. -/
def endsInLoneTrue : Automaton Bool Bool :=
  { oddTrues with transition := Runner.noTwoTrues.transition }

/-- One worker takes the first word, another the last two, and a third what is left between. -/
def threeWorkers : Schedule := fun _ n => .cut 1 .whole (.cut (n - 3) .whole .whole)

/-- Four words are answered in order by three workers, and a word with two `true` in a row among
them makes the batch fail, also when nothing is cut. -/
theorem batch_answers_in_order_threeWorkers :
    (∀ w ∈ [[], [true], [false, true], [true, false]],
      ¬Fails (endsInLoneTrue.run endsInLoneTrue.start w)) ∧
      (endsInLoneTrue.acceptsBatch [[], [true], [false, true], [true, false]] ⟨true, 0⟩
        threeWorkers).outcome = .ok [false, true, true, false] ∧
      (endsInLoneTrue.runBatch [[], [true], [false, true], [true, false]] ⟨true, 0⟩
        threeWorkers).outcome = .ok [false, true, true, false] ∧
      Fails (endsInLoneTrue.acceptsBatch [[true], [true, true, false]] .sequential
        threeWorkers).outcome := by
  have hruns : ∀ w ∈ [[], [true], [false, true], [true, false]],
      ¬Fails (endsInLoneTrue.run endsInLoneTrue.start w) := by decide
  have hinjective : Function.Injective (Except.ok : Bool → Checked Bool) := fun _ _ => Except.ok.inj
  obtain ⟨_, _, hanswered⟩ := batch_answers_in_order endsInLoneTrue
    [[], [true], [false, true], [true, false]] ⟨true, 0⟩ threeWorkers
  obtain ⟨answers, states, hanswers, hstates, haccepts, hends, _⟩ := hanswered hruns
  obtain rfl : answers = [false, true, true, false] :=
    List.map_injective_iff.mpr hinjective (haccepts.trans rfl)
  obtain rfl : states = [false, true, true, false] :=
    List.map_injective_iff.mpr hinjective (hends.trans rfl)
  obtain ⟨hfails, _⟩ := batch_answers_in_order endsInLoneTrue [[true], [true, true, false]]
    .sequential threeWorkers
  exact ⟨hruns, hanswers, hstates, hfails.mpr ⟨[true, true, false], by decide, by decide⟩⟩

end Automaton

end Automata
