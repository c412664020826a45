import Automata.Proofs.Census
import Automata.Proofs.ShortestWords

/-!
# Searching and counting

Two ways of looking at the accepted words have nothing in common but the words. The search goes from
state to state and marks what it has seen; counting goes from length to length and marks nothing.
`ShortestWords` says of the search which word it finds, `Census` of the counts how many words there
are, and what is left is to put the two beside each other.

> `search_agrees_with_counting`: if no run fails, the first count that is not zero is that of the
> length of the word that the search finds, and the search finds none exactly when the language is
> empty, exactly when the counts of the lengths below the number of states are zero.

That so few counts suffice is the bound on the word: it is shorter than the number of reachable
states, because a longer one could be cut (`exists_shorter`).
-/

namespace Automata.Automaton

variable {S Q : Type} [Indexed S] [Indexed Q] [LawfulIndexed S] [LawfulIndexed Q]
  {a : Automaton S Q}

/-- No word of a length is counted exactly when none is accepted. -/
theorem countAccepted_eq_zero_iff (h : a.Unfailing) (n : Nat) :
    a.countAccepted n = .ok 0 ↔ ∀ w, w.length = n → ¬a.Accepts w := by
  obtain ⟨words, hwords, hcount⟩ := countAccepted_census (h.not_fails_countAccepted n)
  rw [hcount, Except.ok.injEq, Finset.card_eq_zero, Finset.eq_empty_iff_forall_notMem]
  refine forall_congr' fun w => ?_
  rw [hwords, accepts_eq_true, not_and]

/-- A word that is accepted is counted. -/
theorem Accepts.one_le_countAccepted (h : a.Unfailing) {w : List S} (hw : a.Accepts w) :
    ∃ k, a.countAccepted w.length = .ok k ∧ 1 ≤ k := by
  obtain ⟨k, hk⟩ := not_fails_iff.mp (h.not_fails_countAccepted w.length)
  refine ⟨k, hk, Nat.one_le_iff_ne_zero.mpr ?_⟩
  rintro rfl
  exact (countAccepted_eq_zero_iff h w.length).mp hk w rfl hw

/-- **Searching and counting agree.** If no run fails, the search for a shortest accepted word and
the question whether there is any get their answers, and so does every count. When a word is found,
no word is counted of any smaller length, and at least one of the length of the word. No word is
found exactly when the language is empty, and that is so exactly when no word is counted of any
length below the number of states. -/
theorem search_agrees_with_counting (d : Automaton S Q) (hd : d.Unfailing) :
    ∃ answer empty, d.shortestAccepted.outcome = .ok answer ∧ d.isEmpty.outcome = .ok empty ∧
      (∀ n, ∃ k, d.countAccepted n = .ok k) ∧
      (∀ w, answer = some w → (∀ n < w.length, d.countAccepted n = .ok 0) ∧
        ∃ k, d.countAccepted w.length = .ok k ∧ 1 ≤ k) ∧
      (answer = none ↔ empty = true) ∧
      (empty = true ↔ ∀ n < Indexed.count Q, d.countAccepted n = .ok 0) := by
  obtain ⟨answer, hanswer, hfirst, hshort⟩ := shortestAccepted_isFirst hd
  obtain ⟨empty, hempty, hdecides⟩ := isEmpty_decides hd
  refine ⟨answer, empty, hanswer, hempty, fun n => not_fails_iff.mp (hd.not_fails_countAccepted n),
    fun w hw => ⟨fun n hn => ?_, ?_⟩, hfirst.eq_none_iff.trans hdecides.symm, ?_⟩
  · -- a shorter word would come before the one that was found
    rw [countAccepted_eq_zero_iff hd]
    intro u hu haccepts
    have hle := (hfirst.le w hw u haccepts).length_le
    omega
  · exact (hfirst.holds w hw).one_le_countAccepted hd
  · rw [hdecides]
    constructor
    · intro hnone n _
      exact (countAccepted_eq_zero_iff hd n).mpr fun w _ => hnone w
    · intro hzero
      refine hfirst.eq_none_iff.mp (Option.eq_none_iff_forall_ne_some.mpr fun w hw => ?_)
      -- the word that was found would be counted, and it is short
      have hlt : w.length < Indexed.count Q :=
        Nat.lt_of_lt_of_le (hshort w hw) (ncard_le_count d.reachable)
      exact (countAccepted_eq_zero_iff hd _).mp (hzero _ hlt) w rfl (hfirst.holds w hw)

/-- No word of less than two digits has the sum three, and `[1, 2]` and `[2, 1]` do. -/
theorem search_agrees_with_counting_sumsToThree :
    sumsToThree.Unfailing ∧ sumsToThree.shortestAccepted.outcome = .ok (some [1, 2]) ∧
      (∀ n < 2, sumsToThree.countAccepted n = .ok 0) ∧ sumsToThree.countAccepted 2 = .ok 2 ∧
      sumsToThree.isEmpty.outcome = .ok false := by
  have hfound : sumsToThree.shortestAccepted.outcome = .ok (some [1, 2]) := rfl
  obtain ⟨answer, empty, hanswer, hempty, _, hcounts, hnone, _⟩ :=
    search_agrees_with_counting sumsToThree sumsToThree_unfailing
  obtain rfl : some [1, 2] = answer := Except.ok.inj (hfound.symm.trans hanswer)
  obtain rfl : empty = false := Bool.eq_false_iff.mpr fun h => nomatch hnone.mpr h
  exact ⟨sumsToThree_unfailing, hfound, (hcounts _ rfl).1, rfl, hempty⟩

end Automata.Automaton
