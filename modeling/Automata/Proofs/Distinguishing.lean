import Automata.Proofs.ShortestWords

/-!
# Distinguishing words

A word distinguishes two automata when one of them accepts it and the other does not. The search for
such a word is the search for a shortest accepted word of the symmetric difference, whose terminal
pairs come from two products. `Combinations` says which pairs these are, so the words that are
accepted are the distinguishing ones (`accepts_iff_distinguishes`), and `ShortestWords` says that
the search finds the first of them.

> `distinguishing_word_first`: if no run of the two fails, the answer is the first distinguishing
> word, and says that there is none exactly when the two accept the same words; asking in the other
> order gives the same answer.

The two searches run on differently numbered pairs and need not come to them in the same order. They
agree because the first word of a set does not depend on who looks for it (`IsFirst.unique`).
-/

namespace Automata.Automaton

variable {S Q M : Type} [Indexed S] [Indexed Q] [Indexed M]

/-- One of the automata accepts the word and the other rejects it. -/
def Distinguishes (l : Automaton S Q) (m : Automaton S M) (w : List S) : Prop :=
  l.accepts w = .ok true ∧ m.accepts w = .ok false ∨
    l.accepts w = .ok false ∧ m.accepts w = .ok true

theorem distinguishes_comm {l : Automaton S Q} {m : Automaton S M} {w : List S} :
    Distinguishes l m w ↔ Distinguishes m l w := by
  unfold Distinguishes
  rw [or_comm, and_comm, and_comm (a := l.accepts w = .ok true)]

section Unfailing

variable [LawfulIndexed Q] [LawfulIndexed M] {l : Automaton S Q} {m : Automaton S M}

/-- Automata whose runs do not fail agree on the words that do not distinguish them. -/
theorem not_distinguishes_iff (hl : l.Unfailing) (hm : m.Unfailing) (w : List S) :
    ¬Distinguishes l m w ↔ (l.accepts w = .ok true ↔ m.accepts w = .ok true) := by
  obtain ⟨x, hx⟩ := hl.accepts_ok w
  obtain ⟨y, hy⟩ := hm.accepts_ok w
  unfold Distinguishes
  rw [hx, hy]
  cases x <;> cases y <;> simp

/-- The symmetric difference accepts the distinguishing words. -/
theorem accepts_iff_distinguishes (hfits : Indexed.count (Q × M) < indexLimit)
    {c : Automaton S (Q × M)} (h : Combines Pairing.symmetricDifference.holds l m c)
    (hl : l.Unfailing) (hm : m.Unfailing) (w : List S) : c.Accepts w ↔ Distinguishes l m w := by
  have := LawfulIndexed.pair hfits
  obtain ⟨x, hx⟩ := hl.accepts_ok w
  obtain ⟨y, hy⟩ := hm.accepts_ok w
  unfold Distinguishes
  rw [← accepts_eq_true, h.accepts_eq hfits hx hy, hx, hy]
  cases x <;> cases y <;> simp [Pairing.holds]

variable [LawfulIndexed S]

/-- The search finds the first distinguishing word, which is shorter than the number of pairs. -/
theorem distinguishingWord_isFirst (hfits : Indexed.count (Q × M) < indexLimit)
    (hl : l.Unfailing) (hm : m.Unfailing) :
    ∃ answer, (l.distinguishingWord m).outcome = .ok answer ∧
      IsFirst (Distinguishes l m) answer ∧
      ∀ w, answer = some w → w.length < Indexed.count Q * Indexed.count M := by
  have := LawfulIndexed.pair hfits
  obtain ⟨c, hc, hcombines⟩ := symmetricDifference_eq_ok hfits l m
  obtain ⟨answer, hanswer, hfirst, hshort⟩ :=
    shortestAccepted_isFirst (hcombines.unfailing hl hm)
  refine ⟨answer, ?_, hfirst.congr (accepts_iff_distinguishes hfits hcombines hl hm),
    fun w hw => ?_⟩
  · rw [distinguishingWord, Journal.outcome_bind, hc, ok_bind, hanswer]
  · exact Nat.lt_of_lt_of_le (hshort w hw) (ncard_le_count c.reachable)

/-- **Distinguishing words are first, and do not depend on the order of the automata.** If no run of
the two automata fails, asking for a distinguishing word gets an answer: there is none exactly when
both accept the same words, and otherwise it is the one that comes before all others in the shortlex
order. It is shorter than the number of pairs of states. The same answer is given when the automata
change places. As for every type of pairs, the number of pairs of states has to be an index. -/
theorem distinguishing_word_first (l : Automaton S Q) (m : Automaton S M) (hl : l.Unfailing)
    (hm : m.Unfailing) (hfits : Indexed.count (Q × M) < indexLimit) :
    ∃ answer, (l.distinguishingWord m).outcome = .ok answer ∧
      (answer = none ↔ ∀ w, l.accepts w = .ok true ↔ m.accepts w = .ok true) ∧
      IsFirst (Distinguishes l m) answer ∧
      (∀ w, answer = some w → w.length < Indexed.count Q * Indexed.count M) ∧
      (m.distinguishingWord l).outcome = .ok answer := by
  obtain ⟨answer, hanswer, hfirst, hshort⟩ := distinguishingWord_isFirst hfits hl hm
  have hswapped : Indexed.count (M × Q) < indexLimit := by
    rw [show Indexed.count (M × Q) = Indexed.count (Q × M) from Nat.mul_comm _ _]
    exact hfits
  obtain ⟨answer', hanswer', hfirst', _⟩ := distinguishingWord_isFirst hswapped hm hl
  obtain rfl : answer' = answer := (hfirst'.congr fun _ => distinguishes_comm).unique hfirst
  refine ⟨answer', hanswer, ?_, hfirst, hshort, hanswer'⟩
  exact hfirst.eq_none_iff.trans (forall_congr' (not_distinguishes_iff hl hm))

end Unfailing

/-- Accepts the words of at least two symbols that end in `2`. Behind the start a state tells
whether there were one or more symbols and whether the last of them is `2`. -/
def endsInTwo : Automaton (Fin 3) (Fin 5) where
  start := 0
  terminal := ⟨((BitSet.empty 5).extend [4]).1, rfl⟩
  transition := .computed fun q s =>
    .ok (if q = 0 then if s.val = 2 then 2 else 1 else if s.val = 2 then 4 else 3)

/-- No symbol distinguishes the automata, and of the pairs of symbols `[0, 2]` and `[2, 2]` end in
`2`, `[2, 1]` has the sum three, and `[1, 2]` does both. The first of them is found either way. -/
theorem distinguishing_word_first_endsInTwo :
    sumsToThree.Unfailing ∧ endsInTwo.Unfailing ∧
      Indexed.count (Fin 7 × Fin 5) < indexLimit ∧
      (sumsToThree.distinguishingWord endsInTwo).outcome = .ok (some [0, 2]) ∧
      (endsInTwo.distinguishingWord sumsToThree).outcome = .ok (some [0, 2]) ∧
      ∀ u, Distinguishes sumsToThree endsInTwo u → ShortlexLe [0, 2] u := by
  have hunfailing : endsInTwo.Unfailing := Total.unfailing fun _ _ => ⟨_, rfl⟩
  have hfits : Indexed.count (Fin 7 × Fin 5) < indexLimit := by decide
  have hword : (sumsToThree.distinguishingWord endsInTwo).outcome = .ok (some [0, 2]) := by
    decide +kernel
  obtain ⟨answer, hanswer, _, hfirst, _, hswapped⟩ :=
    distinguishing_word_first sumsToThree endsInTwo sumsToThree_unfailing hunfailing hfits
  obtain rfl : some [0, 2] = answer := Except.ok.inj (hword.symm.trans hanswer)
  exact ⟨sumsToThree_unfailing, hunfailing, hfits, hword, hswapped, hfirst.le _ rfl⟩

end Automata.Automaton
