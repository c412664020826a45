import Mathlib.Data.Set.Card
import Automata.Proofs.Decisions

/-!
# Shortest words

The search for a shortest accepted word answers with the word along which it came to its first
terminal state, and gives up when it has expanded everything it found. `IsFirst` says what such an
answer has to be, for any set of words: none if there is no word in the set, and otherwise the one
that comes before all others in the shortlex order. `Search.run_answer` has the answer of a search;
what is added here is how long the word can be. A word that is at least as long as there are
reachable states comes to one of them twice, and what it reads in between can be cut out
(`exists_shorter`), so a first word is shorter than that.

> `shortest_words_first`: if no run fails, the searches for a shortest accepted and a shortest
> rejected word both answer, with the first word of its kind, which is shorter than the number of
> reachable states.
-/

namespace Automata

/-- Types with a lawful numbering are finite. -/
theorem finite_of_lawful (α : Type) [Indexed α] [LawfulIndexed α] : Finite α :=
  Finite.of_injective (fun v : α => (⟨number v, number_lt v⟩ : Fin (Indexed.count α)))
    fun _ _ h => number_inj.mp (congrArg Fin.val h)

/-- A set of values has no more elements than there are values. -/
theorem ncard_le_count {α : Type} [Indexed α] [LawfulIndexed α] (s : Set α) :
    s.ncard ≤ Indexed.count α := by
  have hsub : s ⊆ ((⟨(values α : List α), nodup_values⟩ : Finset α) : Set α) :=
    fun v _ => mem_values v
  have hle := Set.ncard_le_ncard hsub (Finset.finite_toSet _)
  rw [Set.ncard_coe_finset] at hle
  exact Nat.le_trans hle (Nat.le_of_eq (length_values α))

/-- The answer is the first word, in the shortlex order, of those that satisfy `L`, or says that no
word does. -/
structure IsFirst {S : Type} [Indexed S] (L : List S → Prop) (answer : Option (List S)) : Prop where
  eq_none_iff : answer = none ↔ ∀ w, ¬L w
  holds : ∀ w, answer = some w → L w
  le : ∀ w, answer = some w → ∀ u, L u → ShortlexLe w u

section First

variable {S : Type} [Indexed S] {L : List S → Prop}

theorem isFirst_none (h : ∀ w, ¬L w) : IsFirst L none :=
  ⟨iff_of_true rfl h, (fun _ hw => nomatch hw), (fun _ hw => nomatch hw)⟩

theorem isFirst_some {w : List S} (hw : L w) (hle : ∀ u, L u → ShortlexLe w u) :
    IsFirst L (some w) where
  eq_none_iff := iff_of_false (Option.some_ne_none w) fun hnone => hnone w hw
  holds := by
    intro v hv
    cases hv
    exact hw
  le := by
    intro v hv
    cases hv
    exact hle

theorem IsFirst.congr {L' : List S → Prop} {answer : Option (List S)} (h : IsFirst L answer)
    (hiff : ∀ w, L w ↔ L' w) : IsFirst L' answer where
  eq_none_iff := h.eq_none_iff.trans (forall_congr' fun w => not_congr (hiff w))
  holds w hw := (hiff w).mp (h.holds w hw)
  le w hw u hu := h.le w hw u ((hiff u).mpr hu)

/-- There is only one answer, since two words that come before each other are equal. -/
theorem IsFirst.unique {answer answer' : Option (List S)} (h : IsFirst L answer)
    (h' : IsFirst L answer') : answer = answer' := by
  cases answer with
  | none => exact (h'.eq_none_iff.mpr (h.eq_none_iff.mp rfl)).symm
  | some w =>
    cases answer' with
    | none => exact absurd (h.holds w rfl) (h'.eq_none_iff.mp rfl w)
    | some v => exact congrArg some ((h.le w rfl v (h'.holds v rfl)).antisymm
        (h'.le v rfl w (h.holds w rfl)))

end First

namespace Automaton

variable {S Q : Type} [Indexed S] [Indexed Q]

/-! ## Cutting words short -/

/-- The states that some word leads to from the start state. -/
def reachable (a : Automaton S Q) : Set Q := {q | ∃ w, a.run a.start w = .ok q}

/-- A run can be split after any number of symbols. -/
theorem run_take_drop {a : Automaton S Q} {w : List S} {q r : Q} (h : a.run q w = .ok r) (k : Nat) :
    ∃ p, a.run q (w.take k) = .ok p ∧ a.run p (w.drop k) = .ok r := by
  rw [← List.take_append_drop k w, run_append, bind_eq_ok] at h
  exact h

/-- Where a run ends that is as long as there are reachable states, a shorter one ends as well. -/
theorem exists_shorter [LawfulIndexed Q] {a : Automaton S Q} {w : List S} {r : Q}
    (h : a.run a.start w = .ok r) (hlen : a.reachable.ncard ≤ w.length) :
    ∃ u, u.length < w.length ∧ a.run a.start u = .ok r := by
  have := finite_of_lawful Q
  choose state hstate hrest using run_take_drop h
  -- the word has more first parts than there are states for them to lead to
  have hmore : a.reachable.ncard < (Finset.range (w.length + 1) : Set Nat).ncard := by
    rw [Set.ncard_coe_finset, Finset.card_range]
    omega
  have hreachable : ∀ k ∈ (Finset.range (w.length + 1) : Set Nat), state k ∈ a.reachable :=
    fun k _ => ⟨w.take k, hstate k⟩
  obtain ⟨i, hi, j, hj, hne, hsame⟩ :=
    Set.exists_ne_map_eq_of_ncard_lt_of_maps_to hmore hreachable
  rw [Finset.mem_coe, Finset.mem_range] at hi hj
  have hcut : ∀ {i j : Nat}, i < j → j < w.length + 1 → state i = state j →
      ∃ u, u.length < w.length ∧ a.run a.start u = .ok r := by
    intro i j hij hj hsame
    refine ⟨w.take i ++ w.drop j, ?_, ?_⟩
    · rw [List.length_append, List.length_take, List.length_drop]
      omega
    · rw [run_append, hstate, ok_bind, hsame]
      exact hrest j
  rcases Nat.lt_or_gt_of_ne hne with hlt | hgt
  · exact hcut hlt hj hsame
  · exact hcut hgt hi hsame.symm

/-- The first of the words that lead to states of one kind is shorter than the number of reachable
states. -/
theorem length_lt_of_first [LawfulIndexed Q] {a : Automaton S Q} {P : Q → Prop} {w : List S}
    (hw : ∃ q, a.run a.start w = .ok q ∧ P q)
    (hle : ∀ u, (∃ q, a.run a.start u = .ok q ∧ P q) → ShortlexLe w u) :
    w.length < a.reachable.ncard := by
  obtain ⟨q, hq, hP⟩ := hw
  refine Nat.lt_of_not_le fun hlen => ?_
  obtain ⟨u, hshort, hu⟩ := exists_shorter hq hlen
  exact (hle u ⟨q, hu, hP⟩).not_lt (Or.inl hshort)

/-! ## The searches -/

section Search

variable [LawfulIndexed S] [LawfulIndexed Q] {a : Automaton S Q}

/-- The search for a shortest accepted word finds the first accepted word. -/
theorem shortestAccepted_isFirst (h : a.Unfailing) :
    ∃ answer, a.shortestAccepted.outcome = .ok answer ∧ IsFirst a.Accepts answer ∧
      ∀ w, answer = some w → w.length < a.reachable.ncard := by
  obtain ⟨t, ending, hrun, hanswer⟩ :=
    Search.run_answer a a.isTerminal fun q => ⟨_, isTerminal_eq a q⟩
  rw [shortestAccepted_outcome, hrun, ok_bind]
  have hleads : ∀ w, Search.Leads a a.isTerminal w ↔ a.Accepts w := fun w =>
    bind_eq_ok.symm.trans accepts_eq_true
  cases hanswer with
  | exhausted hruns _ =>
    refine ⟨none, rfl, isFirst_none fun w hw => ?_, fun _ hw => nomatch hw⟩
    obtain ⟨q, hq, hgoal⟩ := (hleads w).mpr hw
    obtain ⟨r, hr, hnot⟩ := hruns w
    rw [hq] at hr
    cases hr
    rw [hgoal] at hnot
    cases hnot
  | reached q w hword hw hgoal hle _ =>
    have hfirst : IsFirst a.Accepts (some w) :=
      isFirst_some ((hleads w).mp ⟨q, hw, hgoal⟩) fun u hu => hle u ((hleads u).mpr hu)
    refine ⟨some w, ?_, hfirst, ?_⟩
    · simp only [hword]
      rfl
    · intro v hv
      exact length_lt_of_first (hfirst.holds v hv) (hfirst.le v hv)
  | failed q w s fault hw hfail _ =>
    -- the fault lies on the way of a run
    obtain ⟨r, hr⟩ := h.step_ok hw s
    rw [hfail] at hr
    cases hr

/-- The search for a shortest rejected word finds the first rejected word. -/
theorem shortestRejected_isFirst (h : a.Unfailing) :
    ∃ answer, a.shortestRejected.outcome = .ok answer ∧
      IsFirst (fun w => a.accepts w = .ok false) answer ∧
      ∀ w, answer = some w → w.length < a.reachable.ncard := by
  obtain ⟨c, hc, hrun, hterminal⟩ := exists_complement a
  have hunfailing : c.Unfailing := fun w => by
    rw [hrun]
    exact h w
  have hreachable : c.reachable = a.reachable := by
    unfold reachable
    simp only [hrun]
  obtain ⟨answer, hanswer, hfirst, hshort⟩ := shortestAccepted_isFirst hunfailing
  rw [hreachable] at hshort
  refine ⟨answer, ?_, hfirst.congr (accepts_complement hrun hterminal), hshort⟩
  rw [shortestRejected, Journal.outcome_bind, hc, ok_bind, hanswer]

/-- **Shortest words are first.** If no run fails, the search for a shortest accepted word says that
there is none exactly when no word is accepted, and otherwise finds the accepted word that comes
before all others in the shortlex order. It is shorter than the number of reachable states. The
search for a shortest rejected word does the same for the rejected words. -/
theorem shortest_words_first (d : Automaton S Q) (hd : d.Unfailing) :
    (∃ answer, d.shortestAccepted.outcome = .ok answer ∧
      IsFirst (fun w => d.accepts w = .ok true) answer ∧
      ∀ w, answer = some w → w.length < d.reachable.ncard) ∧
    ∃ answer, d.shortestRejected.outcome = .ok answer ∧
      IsFirst (fun w => d.accepts w = .ok false) answer ∧
      ∀ w, answer = some w → w.length < d.reachable.ncard := by
  refine ⟨?_, shortestRejected_isFirst hd⟩
  obtain ⟨answer, hanswer, hfirst, hshort⟩ := shortestAccepted_isFirst hd
  exact ⟨answer, hanswer, hfirst.congr fun w => accepts_eq_true.symm, hshort⟩

/-- Accepts the words over the digits `0`, `1`, `2` whose sum is three more than a multiple of five.
The states from `5` on are never reached, and have no successors. -/
def sumsToThree : Automaton (Fin 3) (Fin 7) where
  start := 0
  terminal := ⟨((BitSet.empty 7).extend [3, 5]).1, rfl⟩
  transition := .computed fun q s =>
    if q < 5 then .ok ⟨(q.val + s.val) % 5, by omega⟩ else .error (.beyondBound q.val 5)

theorem sumsToThree_unfailing : sumsToThree.Unfailing :=
  unfailing_of_closed (P := (· < 5)) (by decide) fun _ _ hq =>
    ⟨_, if_pos hq, Nat.mod_lt _ (by decide)⟩

/-- Of the two shortest words, `[1, 2]` and `[2, 1]`, the first is found. -/
theorem shortest_words_first_sumsToThree :
    sumsToThree.Unfailing ∧ sumsToThree.shortestAccepted.outcome = .ok (some [1, 2]) ∧
      (∀ u, sumsToThree.accepts u = .ok true → ShortlexLe [1, 2] u) ∧
      2 < sumsToThree.reachable.ncard ∧ sumsToThree.shortestRejected.outcome = .ok (some []) := by
  have haccepted : sumsToThree.shortestAccepted.outcome = .ok (some [1, 2]) := rfl
  obtain ⟨⟨answer, hanswer, hfirst, hshort⟩, _⟩ :=
    shortest_words_first sumsToThree sumsToThree_unfailing
  obtain rfl : some [1, 2] = answer := Except.ok.inj (haccepted.symm.trans hanswer)
  exact ⟨sumsToThree_unfailing, haccepted, hfirst.le _ rfl, hshort _ rfl, by decide +kernel⟩

end Search

end Automaton

end Automata
