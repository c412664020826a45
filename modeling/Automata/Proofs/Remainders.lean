import Automata.Proofs.Descriptions
import Automata.Proofs.Numerals
import Automata.Proofs.Visits

/-!
# Automata that keep remainders

Reading a bit doubles the number and adds the bit, and remainders can be taken at every step. So an
automaton whose state is the remainder of what it has read (`Reduces`) accepts the numerals of the
multiples, whether or not zeros stand in front, and the states that are reached are the remainders,
however many states the type has.
-/

namespace Automata.Numeral

open Automaton
open Demo.Divisibility (binary)

variable {bound m : Nat}

/-- The automaton starts in zero, keeps remainders by `m` while it reads bits, and has no terminal
state but zero. -/
structure Reduces (m : Nat) (d : Automaton Bool (Fin bound)) : Prop where
  start_eq : d.start.val = 0
  exists_step : ∀ q bit, ∃ r, d.step q bit = .ok r ∧ r.val = (2 * q.val + bit.toNat) % m
  mem_terminal : ∀ q, q ∈ d.terminal ↔ q.val = 0

theorem exists_boundedNumber {n : Nat} (h : n < bound) :
    ∃ r, boundedNumber bound n = .ok r ∧ r.val = n := ⟨⟨n, h⟩, dif_pos h, rfl⟩

/-- An automaton that is defined by remainders keeps them, if there are states for all of them. -/
theorem exists_reduces {start : Fin bound} (hstart : start.val = 0) (hpos : 0 < m)
    (hle : m ≤ bound) :
    ∃ d, (Automaton.ofFunction start (fun q => q.val == 0) fun q (bit : Bool) =>
        boundedNumber bound ((2 * q.val + bit.toNat) % m)).outcome = .ok d ∧ Reduces m d := by
  obtain ⟨terminal, hbuild, hmem⟩ := ofFunction_eq_ok (S := Bool) (Q := Fin bound) _ _ _
  refine ⟨_, hbuild, hstart, fun q bit => ?_, fun q => ?_⟩
  · exact exists_boundedNumber (Nat.lt_of_lt_of_le (Nat.mod_lt _ hpos) hle)
  · rw [hmem, beq_iff_eq]

/-- There are as many states below a number as the number says, if there are so many states. -/
theorem ncard_val_lt (h : m ≤ bound) : {q : Fin bound | q.val < m}.ncard = m := by
  have himage : Fin.val '' {q : Fin bound | q.val < m} = (Finset.range m : Set Nat) := by
    ext n
    rw [Finset.mem_coe, Finset.mem_range]
    constructor
    · intro hn
      obtain ⟨q, hq, rfl⟩ := hn
      exact hq
    · intro hn
      exact ⟨⟨n, Nat.lt_of_lt_of_le hn h⟩, hn, rfl⟩
  rw [← Set.ncard_image_of_injective _ Fin.val_injective, himage, Set.ncard_coe_finset,
    Finset.card_range]

namespace Reduces

variable {d : Automaton Bool (Fin bound)}

theorem total (h : Reduces m d) : d.Total := fun q bit =>
  (h.exists_step q bit).imp fun _ hr => hr.1

theorem unfailing (h : Reduces m d) : d.Unfailing := h.total.unfailing

/-- A run from the remainder of a number ends in the remainder of the number that the bits behind it
make of it. -/
theorem run_from (h : Reduces m d) : ∀ (word : List Bool) {q : Fin bound} {n : Nat},
    q.val = n % m → ∃ r, d.run q word = .ok r ∧
      r.val = word.foldl (fun n bit => 2 * n + bit.toNat) n % m := by
  intro word
  induction word with
  | nil => exact fun hq => ⟨_, rfl, hq⟩
  | cons bit word ih =>
    intro q n hq
    obtain ⟨r, hr, hval⟩ := h.exists_step q bit
    have hnext : r.val = (2 * n + bit.toNat) % m := by
      rw [hval, hq, Nat.add_mod, Nat.mul_mod_mod, ← Nat.add_mod]
    rw [run_cons, hr]
    exact ih hnext

/-- The run on a word ends in the remainder of the number that the word stands for. -/
theorem run_eq (h : Reduces m d) (word : List Bool) :
    ∃ q, d.run d.start word = .ok q ∧ q.val = value word % m :=
  h.run_from word (h.start_eq.trans (Nat.zero_mod m).symm)

/-- The numeral of a number leads to the remainder of the number. -/
theorem run_binary (h : Reduces m d) (n : Nat) :
    ∃ q, d.run d.start (binary n) = .ok q ∧ q.val = n % m := by
  have hrun := h.run_eq (binary n)
  rwa [value_binary] at hrun

/-- The words for multiples are accepted. -/
theorem accepts_eq (h : Reduces m d) (word : List Bool) :
    d.accepts word = .ok (decide (m ∣ value word)) := by
  obtain ⟨q, hq, hval⟩ := h.run_eq word
  rw [accepts_of_run hq]
  simp only [h.mem_terminal, hval, Nat.dvd_iff_mod_eq_zero]

/-- All remainders are reached, each by its numeral, and nothing else is. -/
theorem reachable_eq (h : Reduces m d) (hpos : 0 < m) : d.reachable = {q | q.val < m} := by
  ext q
  constructor
  · intro hq
    obtain ⟨word, hword⟩ := hq
    obtain ⟨r, hr, hval⟩ := h.run_eq word
    obtain rfl : r = q := Except.ok.inj (hr.symm.trans hword)
    show r.val < m
    rw [hval]
    exact Nat.mod_lt _ hpos
  · intro hq
    obtain ⟨r, hr, hval⟩ := h.run_binary q.val
    rw [Nat.mod_eq_of_lt hq] at hval
    exact ⟨_, Fin.ext hval ▸ hr⟩

/-- There are as many reachable states as the modulus says. -/
theorem reachableStates_eq (h : Reduces m d) (hpos : 0 < m) (hle : m ≤ bound) :
    ∃ states, d.reachableStates.outcome = .ok states ∧ states.len = m := by
  obtain ⟨states, hstates, hmem⟩ := reachableStates_eq_ok h.unfailing
  have hlen : states.len = d.reachable.ncard := StateSet.len_eq_ncard hmem
  exact ⟨states, hstates, by rw [hlen, h.reachable_eq hpos, ncard_val_lt hle]⟩

end Reduces

end Automata.Numeral
