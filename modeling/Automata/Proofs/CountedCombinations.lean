import Mathlib.Data.Fintype.BigOperators
import Automata.Proofs.Census
import Automata.Proofs.Tabulation

/-!
# Counts of combined automata

The accepted words of one length are a finite set, and their count is its size (`Census`). The set
of a combination is made of the sets of its operands as its name says (`Pairing.ofSets`), and the
set of a complement is what is left of all words of the length. So an equation between counts is one
between sizes of finite sets, although each count is added up over states of its own.

> `counts_add_up`: for every length the counts of an automaton and of its complement add up to the
> number of all words, and the counts of two automata and of their combinations are related as the
> sizes of two sets and of the combined sets.
-/

namespace Automata

section Sets

variable {α : Type} [DecidableEq α]

/-- Combines two sets. -/
def Pairing.ofSets : Pairing → Finset α → Finset α → Finset α
  | .intersect, A, B => A ∩ B
  | .union, A, B => A ∪ B
  | .difference, A, B => A \ B
  | .symmetricDifference, A, B => A \ B ∪ B \ A

theorem Pairing.mem_ofSets (p : Pairing) (A B : Finset α) (x : α) :
    x ∈ p.ofSets A B ↔ p.holds (decide (x ∈ A)) (decide (x ∈ B)) = true := by
  cases p <;> by_cases hA : x ∈ A <;> by_cases hB : x ∈ B <;> simp [ofSets, holds, hA, hB]

end Sets

namespace Automaton

variable {S Q M : Type} [Indexed S] [Indexed Q] [Indexed M]

/-- The set holds the accepted words of a length. -/
def Collects (a : Automaton S Q) (n : Nat) (words : Finset (List S)) : Prop :=
  ∀ w, w ∈ words ↔ w.length = n ∧ a.accepts w = .ok true

/-- There are as many words of a length as ways to choose a symbol for each place. -/
theorem exists_allOfLength (S : Type) [Indexed S] [LawfulIndexed S] (n : Nat) :
    ∃ words : Finset (List S), (∀ w, w ∈ words ↔ w.length = n) ∧
      words.card = Indexed.count S ^ n := by
  let _ : Fintype S := ⟨⟨(values S : Multiset S), nodup_values⟩, mem_values⟩
  have hcount : Fintype.card S = Indexed.count S := length_values S
  refine ⟨(Finset.univ : Finset (List.Vector S n)).map
    ⟨List.Vector.toList, List.Vector.toList_injective⟩, fun w => ?_, ?_⟩
  · rw [Finset.mem_map]
    constructor
    · intro h
      obtain ⟨v, _, rfl⟩ := h
      exact v.toList_length
    · intro h
      exact ⟨⟨w, h⟩, Finset.mem_univ _, rfl⟩
  · rw [Finset.card_map, Finset.card_univ, card_vector, hcount]

section Lawful

variable [LawfulIndexed S] [LawfulIndexed Q] [LawfulIndexed M] {l : Automaton S Q}
  {m : Automaton S M} {n : Nat} {A B : Finset (List S)}

theorem Unfailing.exists_collects (h : l.Unfailing) (n : Nat) :
    ∃ words, l.Collects n words ∧ l.countAccepted n = .ok words.card :=
  countAccepted_census (h.not_fails_countAccepted n)

/-- The count is the size of any set that holds the accepted words. -/
theorem Collects.countAccepted_eq (hA : l.Collects n A) (h : l.Unfailing) :
    l.countAccepted n = .ok A.card := by
  obtain ⟨words, hwords, hcount⟩ := h.exists_collects n
  obtain rfl : words = A := Finset.ext fun w => (hwords w).trans (hA w).symm
  exact hcount

/-- The accepted words of the automaton and of its complement are all words. -/
theorem countAccepted_complement (h : l.Unfailing) :
    ∃ c, l.complement.outcome = .ok c ∧ ∀ n, ∃ i j, l.countAccepted n = .ok i ∧
      c.countAccepted n = .ok j ∧ i + j = Indexed.count S ^ n := by
  classical
  obtain ⟨c, hc, hrun, hterminal⟩ := exists_complement l
  have hunfailing : c.Unfailing := fun w => by
    rw [hrun]
    exact h w
  refine ⟨c, hc, fun n => ?_⟩
  obtain ⟨A, hA, hcount⟩ := h.exists_collects n
  obtain ⟨all, hall, hcard⟩ := exists_allOfLength S n
  have hrest : c.Collects n (all \ A) := by
    intro w
    have haccepts : c.accepts w = .ok true ↔ l.accepts w = .ok false :=
      accepts_eq_true.trans (accepts_complement hrun hterminal w)
    obtain ⟨x, hx⟩ := h.accepts_ok w
    rw [Finset.mem_sdiff, hall, hA, haccepts, hx]
    cases x <;> simp
  have hsub : A ⊆ all := fun w hw => (hall w).mpr ((hA w).mp hw).1
  refine ⟨A.card, (all \ A).card, hcount, hrest.countAccepted_eq hunfailing, ?_⟩
  rw [Nat.add_comm, Finset.card_sdiff_add_card_eq_card hsub, hcard]

omit [LawfulIndexed S] in
/-- The accepted words of a combination are the combined sets of accepted words. -/
theorem Combines.collects [DecidableEq (List S)] {p : Pairing} {c : Automaton S (Q × M)}
    (hfits : Indexed.count (Q × M) < indexLimit) (h : Combines p.holds l m c) (hl : l.Unfailing)
    (hm : m.Unfailing) (hA : l.Collects n A) (hB : m.Collects n B) :
    c.Collects n (p.ofSets A B) := by
  intro w
  obtain ⟨x, hx⟩ := hl.accepts_ok w
  obtain ⟨y, hy⟩ := hm.accepts_ok w
  simp only [p.mem_ofSets, hA w, hB w, hx, hy, h.accepts_eq hfits hx hy, Except.ok.injEq]
  by_cases hlen : w.length = n
  · simp [hlen]
  · -- a word of another length is in neither set, and no combination accepts those
    cases p <;> simp [hlen, Pairing.holds]

/-- The count of a combination is the size of the combined sets. -/
theorem Combines.countAccepted_eq [DecidableEq (List S)] {p : Pairing} {c : Automaton S (Q × M)}
    (hfits : Indexed.count (Q × M) < indexLimit) (h : Combines p.holds l m c) (hl : l.Unfailing)
    (hm : m.Unfailing) (hA : l.Collects n A) (hB : m.Collects n B) :
    c.countAccepted n = .ok (p.ofSets A B).card := by
  have := LawfulIndexed.pair hfits
  exact (h.collects hfits hl hm hA hB).countAccepted_eq (h.unfailing hl hm)

/-- **Counts add up.** If no run fails, then for every length the counts of an automaton and of its
complement add up to the number of all words; the counts of the union and of the intersection of two
automata add up to the two counts; the difference and the intersection to the first; and the
symmetric difference and twice the intersection to the two. As for every type of pairs, the number
of pairs of states has to be an index. -/
theorem counts_add_up (l : Automaton S Q) (m : Automaton S M) (hl : l.Unfailing)
    (hm : m.Unfailing) :
    (∃ rest, l.complement.outcome = .ok rest ∧ ∀ n, ∃ i j, l.countAccepted n = .ok i ∧
      rest.countAccepted n = .ok j ∧ i + j = Indexed.count S ^ n) ∧
    (Indexed.count (Q × M) < indexLimit →
      ∃ both either only one, (l.intersect m).outcome = .ok both ∧
        (l.union m).outcome = .ok either ∧ (l.difference m).outcome = .ok only ∧
        (l.symmetricDifference m).outcome = .ok one ∧
        ∀ n, ∃ i j b e o x, l.countAccepted n = .ok i ∧ m.countAccepted n = .ok j ∧
          both.countAccepted n = .ok b ∧ either.countAccepted n = .ok e ∧
          only.countAccepted n = .ok o ∧ one.countAccepted n = .ok x ∧
          e + b = i + j ∧ o + b = i ∧ x + 2 * b = i + j) := by
  classical
  refine ⟨countAccepted_complement hl, fun hfits => ?_⟩
  obtain ⟨both, hboth, hbothC⟩ := intersect_eq_ok hfits l m
  obtain ⟨either, heither, heitherC⟩ := union_eq_ok hfits l m
  obtain ⟨only, honly, honlyC⟩ := difference_eq_ok hfits l m
  obtain ⟨one, hone, honeC⟩ := symmetricDifference_eq_ok hfits l m
  refine ⟨both, either, only, one, hboth, heither, honly, hone, fun n => ?_⟩
  obtain ⟨A, hA, hi⟩ := hl.exists_collects n
  obtain ⟨B, hB, hj⟩ := hm.exists_collects n
  refine ⟨_, _, _, _, _, _, hi, hj, hbothC.countAccepted_eq hfits hl hm hA hB,
    heitherC.countAccepted_eq hfits hl hm hA hB, honlyC.countAccepted_eq hfits hl hm hA hB,
    honeC.countAccepted_eq hfits hl hm hA hB, Finset.card_union_add_card_inter A B,
    Finset.card_sdiff_add_card_inter A B, ?_⟩
  -- the two differences are disjoint, and each lacks the intersection
  have hunion : (A \ B ∪ B \ A).card = (A \ B).card + (B \ A).card :=
    Finset.card_union_of_disjoint disjoint_sdiff_sdiff
  have hleft : (A \ B).card + (A ∩ B).card = A.card := Finset.card_sdiff_add_card_inter A B
  have hright : (B \ A).card + (A ∩ B).card = B.card := by
    rw [Finset.inter_comm]
    exact Finset.card_sdiff_add_card_inter B A
  show (A \ B ∪ B \ A).card + 2 * (A ∩ B).card = A.card + B.card
  omega

/-- Of the words of length three four end in `false`, four have an odd number of `true`, and two of
the former lack the latter. The other counts follow. -/
theorem counts_add_up_oddTrues :
    endsInFalse.Unfailing ∧ oddTrues.Unfailing ∧ Indexed.count (Fin 4 × Bool) < indexLimit ∧
      ∃ both either one, (endsInFalse.intersect oddTrues).outcome = .ok both ∧
        (endsInFalse.union oddTrues).outcome = .ok either ∧
        (endsInFalse.symmetricDifference oddTrues).outcome = .ok one ∧
        both.countAccepted 3 = .ok 2 ∧ either.countAccepted 3 = .ok 6 ∧
        one.countAccepted 3 = .ok 4 := by
  have hodd : oddTrues.Unfailing := Total.unfailing fun _ _ => ⟨_, rfl⟩
  have hfits : Indexed.count (Fin 4 × Bool) < indexLimit := by decide
  obtain ⟨_, hpairs⟩ := counts_add_up endsInFalse oddTrues endsInFalse_unfailing hodd
  obtain ⟨both, either, only, one, hboth, heither, honly, hone, hcounts⟩ := hpairs hfits
  obtain ⟨i, j, b, e, o, x, hi, hj, hb, he, ho, hx, hsums⟩ := hcounts 3
  have hfour : i = 4 ∧ j = 4 := ⟨Except.ok.inj hi.symm, Except.ok.inj hj.symm⟩
  have htwo : (endsInFalse.difference oddTrues).outcome >>= (·.countAccepted 3) = .ok 2 := by
    decide +kernel
  rw [honly, ok_bind, ho, Except.ok.injEq] at htwo
  obtain ⟨rfl, rfl, rfl⟩ : b = 2 ∧ e = 6 ∧ x = 4 := by omega
  exact ⟨endsInFalse_unfailing, hodd, hfits, both, either, one, hboth, heither, hone, hb, he, hx⟩

end Lawful

end Automaton

end Automata
