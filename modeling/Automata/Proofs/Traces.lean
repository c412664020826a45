import Automata.Automaton.Trace
import Automata.Proofs.Pieces

/-!
# Traces of runs

A trace hands out the states of a run one by one, and goes on where the run itself would end: a
symbol whose step meets a fault is used up, and the next symbol is read in the same state as if it
had not been there. So the state of a trace is not that of a run in general. It is the one in which
the symbols read so far leave an automaton that does not stop at a fault (`Automaton.standing`), and
`after_fresh` says that after any number of requests a trace has this state and the symbols that are
left, or is finished. What each request is told follows from the position it is made at:

> `take_recounts_run`: the answers to any number of requests are those of `Automaton.told`, and
> where no step of the run meets a fault they are the states of the run, each once, and then nothing
> for ever.
-/

namespace Automata

namespace Automaton

variable {S Q : Type} [Indexed S] [Indexed Q]

/-- The state after a symbol, which is the state before it where the step meets a fault. -/
def settle (a : Automaton S Q) (q : Q) (s : S) : Q :=
  match a.step q s with
  | .ok r => r
  | .error _ => q

/-- The state in which the symbols of a word leave the automaton. -/
def standing (a : Automaton S Q) (q : Q) (word : List S) : Q := word.foldl a.settle q

/-- What the requests of a trace are told, counted from `0`: the state it starts in, then for each
symbol what comes of the step, then nothing. -/
def told (a : Automaton S Q) (q : Q) (word : List S) : Nat → Checked (Option Q)
  | 0 => .ok (some q)
  | k + 1 =>
    match word[k]? with
    | some s => (a.step (a.standing q (word.take k)) s).map some
    | none => .ok none

/-- A run without faults comes to where its symbols leave the automaton. -/
theorem standing_eq_of_run {a : Automaton S Q} : ∀ {word : List S} {q r : Q},
    a.run q word = .ok r → a.standing q word = r := by
  intro word
  induction word with
  | nil =>
    intro q r h
    cases h
    rfl
  | cons s word ih =>
    intro q r h
    rw [run_cons, bind_eq_ok] at h
    obtain ⟨p, hp, hr⟩ := h
    have hsettle : a.settle q s = p := by rw [settle, hp]
    rw [standing, List.foldl_cons, hsettle]
    exact ih hr

/-- So does each first part of it. -/
theorem run_take_eq_standing {a : Automaton S Q} {q r : Q} {word : List S}
    (h : a.run q word = .ok r) (k : Nat) :
    a.run q (word.take k) = .ok (a.standing q (word.take k)) := by
  rw [← List.take_append_drop k word, run_append, bind_eq_ok] at h
  obtain ⟨p, hp, _⟩ := h
  rw [hp, standing_eq_of_run hp]

/-- Where no step meets a fault, the requests up to the last symbol are told the states of the
run. -/
theorem told_eq_of_run {a : Automaton S Q} {q r : Q} {word : List S} (h : a.run q word = .ok r) :
    ∀ {k : Nat}, k ≤ word.length → a.told q word k = .ok (some (a.standing q (word.take k))) := by
  intro k
  cases k with
  | zero => intro _; rfl
  | succ k =>
    intro hk
    have hnext := run_take_eq_standing h (k + 1)
    rw [List.take_succ_eq_append_getElem hk, run_concat (run_take_eq_standing h k)] at hnext
    rw [told, List.getElem?_eq_getElem hk, List.take_succ_eq_append_getElem hk]
    simp only [hnext]
    rfl

/-- Behind the last symbol there is nothing more to tell. -/
theorem told_of_length_lt {a : Automaton S Q} {q : Q} {word : List S} {k : Nat}
    (h : word.length < k) : a.told q word k = .ok none := by
  cases k with
  | zero => exact absurd h (Nat.not_lt_zero _)
  | succ k => rw [told, List.getElem?_eq_none (Nat.le_of_lt_succ h)]

end Automaton

namespace Trace

variable {S Q : Type} [Indexed S] [Indexed Q]

/-- The position after `n` requests. -/
def after (a : Automaton S Q) : Nat → Trace S Q → Trace S Q
  | 0, t => t
  | n + 1, t => after a n (t.next a).2

/-! ## Positions -/

/-- A symbol is used up and told about, whatever comes of its step. -/
theorem next_running_cons (a : Automaton S Q) (q : Q) (s : S) (word : List S) :
    (Trace.running q (s :: word)).next a =
      ((a.step q s).map some, .running (a.settle q s) word) := by
  rw [next, Automaton.settle]
  cases a.step q s <;> rfl

theorem after_finished (a : Automaton S Q) : ∀ n, (finished : Trace S Q).after a n = .finished := by
  intro n
  induction n with
  | zero => rfl
  | succ n ih => exact ih

/-- The symbols are used up one by one, and after the last of them the trace is finished. -/
theorem after_running (a : Automaton S Q) : ∀ (n : Nat) (q : Q) (word : List S),
    (Trace.running q word).after a n =
      if n ≤ word.length then .running (a.standing q (word.take n)) (word.drop n)
      else .finished := by
  intro n
  induction n with
  | zero => intro q word; rfl
  | succ n ih =>
    intro q word
    cases word with
    | nil => exact after_finished a n
    | cons s word =>
      rw [after, next_running_cons, ih, List.take_succ_cons, List.drop_succ_cons, List.length_cons]
      simp only [Nat.succ_le_succ_iff]
      rfl

/-- The first request uses up no symbol. -/
theorem after_fresh (a : Automaton S Q) (q : Q) (word : List S) (n : Nat) :
    (Trace.fresh q word).after a (n + 1) =
      if n ≤ word.length then .running (a.standing q (word.take n)) (word.drop n)
      else .finished :=
  after_running a n q word

/-! ## Answers -/

theorem next_after_fresh (a : Automaton S Q) (q : Q) (word : List S) : ∀ n,
    (((Trace.fresh q word).after a n).next a).1 = a.told q word n := by
  intro n
  cases n with
  | zero => rfl
  | succ n =>
    rw [after_fresh, Automaton.told]
    by_cases hlt : n < word.length
    · rw [if_pos (Nat.le_of_lt hlt), List.drop_eq_getElem_cons hlt, List.getElem?_eq_getElem hlt,
        next_running_cons]
    · rw [List.getElem?_eq_none (Nat.le_of_not_lt hlt)]
      by_cases hle : n ≤ word.length
      · rw [if_pos hle, List.drop_eq_nil_of_le (Nat.le_of_not_lt hlt)]
        rfl
      · rw [if_neg hle]
        rfl

theorem take_eq_map (a : Automaton S Q) : ∀ (n : Nat) (t : Trace S Q),
    t.take a n = (List.range n).map fun k => ((t.after a k).next a).1 := by
  intro n
  induction n with
  | zero => intro t; rfl
  | succ n ih =>
    intro t
    rw [take, ih, List.range_succ_eq_map, List.map_cons, List.map_map]
    rfl

/-- A sequence that is constant from `m` on. -/
theorem map_range_eq_take {α : Type} {f g : Nat → α} {m : Nat} {c : α}
    (hfirst : ∀ k, k < m → f k = g k) (hrest : ∀ k, m ≤ k → f k = c) (n : Nat) :
    (List.range n).map f = ((List.range m).map g).take n ++ List.replicate (n - m) c := by
  have hmap : ∀ {k}, k ≤ m → (List.range k).map f = (List.range k).map g := fun hk =>
    List.map_congr_left fun i hi => hfirst i (Nat.lt_of_lt_of_le (List.mem_range.mp hi) hk)
  rcases Nat.le_total n m with hle | hle
  · rw [← List.map_take, List.take_range, Nat.min_eq_left hle, Nat.sub_eq_zero_of_le hle, hmap hle]
    exact (List.append_nil _).symm
  · obtain ⟨d, rfl⟩ := Nat.exists_eq_add_of_le hle
    rw [List.range_add, List.map_append, hmap (Nat.le_refl m), List.map_map,
      Nat.add_sub_cancel_left, List.take_of_length_le (by simp)]
    refine congrArg (_ ++ ·) (List.eq_replicate_iff.mpr ⟨by simp, fun b hb => ?_⟩)
    obtain ⟨i, _, rfl⟩ := List.mem_map.mp hb
    exact hrest (m + i) (Nat.le_add_right m i)

/-- **A trace recounts the run.** The requests are told the state the trace starts in, then for each
symbol the state that the step leads to from the state it has come to, or the fault of the step,
which uses up the symbol and leaves this state as it was, and then nothing for ever. When the run
over the word meets no fault, one state more is told than there are symbols: those that the run
comes to over each of the first parts of the word, the last of them being the end of the run. -/
theorem take_recounts_run (a : Automaton S Q) (q : Q) (word : List S) :
    (∀ n, (Trace.fresh q word).take a n = (List.range n).map (a.told q word)) ∧
    (∀ n, (Trace.fresh q word).after a (n + 1) =
      if n ≤ word.length then .running (a.standing q (word.take n)) (word.drop n)
      else .finished) ∧
    ∀ r, a.run q word = .ok r →
      ∃ states : List Q, states.length = word.length + 1 ∧
        (∀ k, k ≤ word.length → ∃ p, states[k]? = some p ∧ a.run q (word.take k) = .ok p) ∧
        states.getLast? = some r ∧
        ∀ n, (Trace.fresh q word).take a n =
          (states.map fun p => .ok (some p)).take n ++
            List.replicate (n - (word.length + 1)) (.ok none) := by
  have hanswers : ∀ n, (Trace.fresh q word).take a n = (List.range n).map (a.told q word) := by
    intro n
    rw [take_eq_map]
    exact congrArg (List.map · _) (funext (next_after_fresh a q word))
  refine ⟨hanswers, after_fresh a q word, fun r hr => ?_⟩
  -- without faults, the state that is settled on is that of the run
  refine ⟨(List.range (word.length + 1)).map fun k => a.standing q (word.take k), by simp, ?_, ?_,
    fun n => ?_⟩
  · intro k hk
    refine ⟨a.standing q (word.take k), ?_, Automaton.run_take_eq_standing hr k⟩
    rw [List.getElem?_map, List.getElem?_range (Nat.lt_succ_of_le hk), Option.map_some]
  · rw [List.range_succ, List.map_append, List.map_singleton, List.getLast?_concat,
      List.take_length, Automaton.standing_eq_of_run hr]
  · rw [hanswers, List.map_map]
    refine map_range_eq_take (fun k hk => ?_) (fun k hk => ?_) n
    · exact Automaton.told_eq_of_run hr (Nat.le_of_lt_succ hk)
    · exact Automaton.told_of_length_lt hk

/-- Of a run that meets a fault at the second `true`, and of one that meets none. -/
theorem take_recounts_run_noTwoTrues :
    (Trace.fresh false [true, true, false]).take Runner.noTwoTrues 6 =
        [.ok (some false), .ok (some true), .error (.beyondNamed "bool" 2), .ok (some false),
          .ok none, .ok none] ∧
      Runner.noTwoTrues.run false [true, false] = .ok false ∧
      ∃ states : List Bool, states.length = 3 ∧ states.getLast? = some false ∧
        (Trace.fresh false [true, false]).take Runner.noTwoTrues 3 =
          states.map fun p => .ok (some p) := by
  obtain ⟨hanswers, _, _⟩ := take_recounts_run Runner.noTwoTrues false [true, true, false]
  obtain ⟨_, _, hstates⟩ := take_recounts_run Runner.noTwoTrues false [true, false]
  have hrun : Runner.noTwoTrues.run false [true, false] = .ok false := rfl
  obtain ⟨states, hlength, _, hlast, htake⟩ := hstates false hrun
  refine ⟨?_, hrun, states, hlength, hlast, ?_⟩
  · rw [hanswers]
    rfl
  · rw [htake, List.take_of_length_le (by rw [List.length_map, hlength]; decide)]
    exact List.append_nil _

end Trace

end Automata
