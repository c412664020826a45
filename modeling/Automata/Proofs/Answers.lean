import Automata.Proofs.Discovery

/-!
# What a search answers

`Search.Answer` is what the three endings of a search say about words, without the book behind
them. A search that ends with its states exhausted has seen every run, and none fails. One that
reaches a state has the first of all words that lead to a state it is looking for, and had no
occasion to meet a fault. One that fails has met a fault that lies, in the shortlex order, before
all such words. `Search.run_answer` says that every search ends in one of these ways.
-/

namespace Automata.Search

variable {S Q : Type} [Indexed S] [Indexed Q]

/-- The word leads from the start state to a state that the search is looking for. -/
def Leads (a : Automaton S Q) (goal : Q → Checked Bool) (word : List S) : Prop :=
  ∃ q, a.run a.start word = .ok q ∧ goal q = .ok true

/-- What the ending of a search says about the words of the automaton. -/
inductive Answer (a : Automaton S Q) (goal : Q → Checked Bool) (t : Search S Q) :
    Ending Q → Prop where
  | exhausted :
    (∀ w, ∃ q, a.run a.start w = .ok q ∧ goal q = .ok false) →
    (∀ q, q ∈ t.visited ↔ ∃ w, a.run a.start w = .ok q) → Answer a goal t .exhausted
  | reached (q : Q) (w : List S) :
    t.wordTo q = .ok w → a.run a.start w = .ok q → goal q = .ok true →
    (∀ u, Leads a goal u → ShortlexLe w u) →
    (∀ u p, a.run a.start u = .ok p → Shortlex u w → ∀ s, ¬Fails (a.step p s)) →
    Answer a goal t (.reached q)
  | failed (q : Q) (w : List S) (s : S) (fault : Fault) :
    a.run a.start w = .ok q → a.step q s = .error fault → (∀ u, Leads a goal u → Shortlex w u) →
    Answer a goal t (.failed fault)

/-! ## From the book to the answer -/

section Book

variable {a : Automaton S Q} {goal : Q → Checked Bool} {t : Search S Q}
  {book : List (Q × List S)} {k : Nat}

/-- The parents lead from a state of the book back to the start state, along its word. -/
theorem Records.trail_eq_ok [LawfulIndexed Q] (h : Records a t book) :
    ∀ (n j : Nat) {q : Q} {w word : List S}, j < n → book[j]? = some (q, w) →
      trail t.parent n q word = .ok (w ++ word) := by
  intro n
  induction n with
  | zero => intro j _ _ _ hj; exact absurd hj (Nat.not_lt_zero j)
  | succ n ih =>
    intro j q w word hj hq
    rw [trail, index_eq, ok_bind]
    cases j with
    | zero =>
      obtain ⟨rfl, rfl⟩ : a.start = q ∧ [] = w := by
        rw [h.head] at hq
        exact ⟨congrArg Prod.fst (Option.some.inj hq), congrArg Prod.snd (Option.some.inj hq)⟩
      simp only [h.parent_start]
      rfl
    | succ j =>
      -- the parent stands earlier in the book, so the fuel lasts
      obtain ⟨i, p, u, s, hij, _, hp, hparent, rfl⟩ := h.parent_next j q w hq
      simp only [hparent]
      rw [ih i (by omega) hp, List.append_assoc]
      rfl

theorem Records.wordTo_eq_ok [LawfulIndexed Q] (h : Records a t book) {j : Nat} {q : Q}
    {w : List S} (hq : book[j]? = some (q, w)) : t.wordTo q = .ok w := by
  have hlt : j < Indexed.count Q :=
    Nat.lt_of_lt_of_le (List.getElem?_eq_some_iff.mp hq).1 h.length_le
  rw [wordTo, h.trail_eq_ok _ j hlt hq, List.append_nil]

/-- The steps of a state are known to succeed where its word comes before that of the first state
that was not expanded. -/
theorem Progress.not_fails_step (hprogress : Progress a goal book k) (h : Records a t book)
    {u : List S} {q : Q} (hu : a.run a.start u = .ok q)
    (hearlier : ∀ p w, book[k]? = some (p, w) → Shortlex u w) (s : S) : ¬Fails (a.step q s) := by
  rcases hprogress.expandedOrLater h hu with ⟨i, w, hik, hi, _⟩ | ⟨p, w, hw, hcases⟩
  · obtain ⟨r, _, hr, _⟩ := hprogress.expanded i q w hik hi s
    exact not_fails_iff.mpr ⟨r, hr⟩
  · have hle : ShortlexLe w u := hcases.elim And.right Or.inr
    exact absurd (hearlier p w hw) hle.not_lt

/-- The words that a search is looking for come no earlier than the first state that was not
expanded, and later unless they lead to it. -/
theorem Progress.leads (hprogress : Progress a goal book k) (h : Records a t book) {u : List S}
    (hu : Leads a goal u) : ∃ p w, book[k]? = some (p, w) ∧
      (goal p = .ok true ∧ ShortlexLe w u ∨ Shortlex w u) := by
  obtain ⟨q, hq, hgoal⟩ := hu
  -- an expanded state was passed by, and those are not looked for
  rcases hprogress.expandedOrLater h hq with ⟨i, w, hik, hi, _⟩ | ⟨p, w, hw, hcases⟩
  · have hpassed := hprogress.passed i q w hik hi
    rw [hgoal] at hpassed
    cases hpassed
  · refine ⟨p, w, hw, hcases.imp (fun hsame => ?_) id⟩
    exact ⟨hsame.1 ▸ hgoal, hsame.2⟩

theorem Progress.exhausted (hprogress : Progress a goal book k) (h : Records a t book)
    (hlen : book.length ≤ k) : Answer a goal t .exhausted := by
  have hruns : ∀ w, ∃ q, a.run a.start w = .ok q := by
    intro w
    refine not_fails_iff.mp fun hfails => ?_
    obtain ⟨u, s, _, r, _, hr, hfail⟩ := Automaton.exists_failing_step hfails
    obtain ⟨i, v, hik, hi, _⟩ := hprogress.exists_entry h hlen hr
    obtain ⟨p, _, hp, _⟩ := hprogress.expanded i r v hik hi s
    exact not_fails_iff.mpr ⟨p, hp⟩ hfail
  refine .exhausted (fun w => ?_) fun q => ?_
  · obtain ⟨q, hq⟩ := hruns w
    obtain ⟨i, u, hik, hi, _⟩ := hprogress.exists_entry h hlen hq
    exact ⟨q, hq, hprogress.passed i q u hik hi⟩
  · rw [h.mem_visited]
    constructor
    · intro hq
      obtain ⟨⟨_, w⟩, hw, rfl⟩ := List.mem_map.mp hq
      exact ⟨w, h.run_eq _ w hw⟩
    · intro hq
      obtain ⟨w, hw⟩ := hq
      obtain ⟨i, u, _, hi, _⟩ := hprogress.exists_entry h hlen hw
      exact List.mem_map_of_mem (List.mem_of_getElem? hi)

end Book

/-- Every search of an automaton ends with an answer. -/
theorem run_answer [LawfulIndexed S] [LawfulIndexed Q] (a : Automaton S Q)
    (goal : Q → Checked Bool) (hgoal : ∀ q, ∃ b, goal q = .ok b) :
    ∃ t ending, Search.run a goal = .ok (t, ending) ∧ Answer a goal t ending := by
  obtain ⟨t, ending, book, k, hrun, _, h, hprogress, hverdict⟩ := run_spec a hgoal
  refine ⟨t, ending, hrun, ?_⟩
  cases hverdict with
  | exhausted hlen => exact hprogress.exhausted h hlen
  | reached q w hq hqgoal =>
    refine .reached q w (h.wordTo_eq_ok hq) (h.run_eq q w (List.mem_of_getElem? hq)) hqgoal ?_ ?_
    · intro u hu
      obtain ⟨p, v, hp, hcases⟩ := hprogress.leads h hu
      cases hq.symm.trans hp
      exact hcases.elim And.right Or.inr
    · intro u p hu hlt s
      refine hprogress.not_fails_step h hu (fun p' v hp' => ?_) s
      cases hq.symm.trans hp'
      exact hlt
  | failed q w s fault hq hqgoal hfail =>
    refine .failed q w s fault (h.run_eq q w (List.mem_of_getElem? hq)) hfail fun u hu => ?_
    obtain ⟨p, v, hp, hcases⟩ := hprogress.leads h hu
    cases hq.symm.trans hp
    rcases hcases with ⟨htrue, _⟩ | hlt
    · rw [hqgoal] at htrue
      cases htrue
    · exact hlt

end Automata.Search
