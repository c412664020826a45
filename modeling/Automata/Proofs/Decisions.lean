import Automata.Language.Decision
import Automata.Proofs.Answers
import Automata.Proofs.Combinations

/-!
# Questions about languages

The questions whether a language is empty, is everything, lies in another or equals another come
down to one search of one automaton: of the automaton itself, of its complement, or of a combination
of two. So they come down to two lemmas about `reachableStates`, which finds the states that runs
lead to when no run fails and fails otherwise, and to what the terminal states of the searched
automaton are. Nothing is assumed of steps that no run comes to.
-/

namespace Automata.Automaton

variable {S Q M : Type} [Indexed S] [Indexed Q] [Indexed M]

/-! ## Reachable states -/

/-- The reachable states are those that a search for nothing has visited in the end. The log plays
no part in the answer. -/
theorem reachableStates_outcome (a : Automaton S Q) :
    a.reachableStates.outcome = Search.run a (fun _ => .ok false) >>= fun found =>
      match found.2 with
      | .failed fault => .error fault
      | _ => .ok found.1.visited := by
  rw [reachableStates, Journal.outcome_bind, Journal.outcome_liftM]
  refine congrArg (Search.run a _ >>= ·) (funext fun found => ?_)
  obtain ⟨t, ending⟩ := found
  cases ending <;> rfl

/-- A shortest accepted word is read off the search at the terminal state that it has reached. -/
theorem shortestAccepted_outcome (a : Automaton S Q) :
    a.shortestAccepted.outcome = Search.run a a.isTerminal >>= fun found =>
      match found.2 with
      | .failed fault => .error fault
      | .reached q => found.1.wordTo q >>= fun word => .ok (some word)
      | .exhausted => .ok none := by
  rw [shortestAccepted, Journal.outcome_bind, Journal.outcome_liftM]
  refine congrArg (Search.run a _ >>= ·) (funext fun found => ?_)
  obtain ⟨t, ending⟩ := found
  cases ending with
  | exhausted => rfl
  | failed fault => rfl
  | reached q => simp [record]

section Reachable

variable [LawfulIndexed S] [LawfulIndexed Q]

/-- Either the reachable states are found, or some run fails and with it the search. -/
theorem reachableStates_cases (a : Automaton S Q) :
    (a.Unfailing ∧ ∃ states, a.reachableStates.outcome = .ok states ∧
      ∀ q, q ∈ states ↔ ∃ w, a.run a.start w = .ok q) ∨
    (∃ w, Fails (a.run a.start w)) ∧ Fails a.reachableStates.outcome := by
  obtain ⟨t, ending, hrun, hanswer⟩ :=
    Search.run_answer a (fun _ => .ok false) fun _ => ⟨false, rfl⟩
  rw [reachableStates_outcome, hrun, ok_bind]
  cases hanswer with
  | exhausted hruns hvisited =>
    refine Or.inl ⟨fun w => ?_, t.visited, rfl, hvisited⟩
    obtain ⟨q, hq, _⟩ := hruns w
    exact not_fails_iff.mpr ⟨q, hq⟩
  | reached q w _ _ hgoal =>
    -- nothing is looked for, so nothing is reached
    cases hgoal
  | failed q w s fault hq hfail =>
    refine Or.inr ⟨⟨w ++ [s], ?_⟩, fails_error fault⟩
    rw [run_concat hq, hfail]
    exact fails_error fault

/-- When no run fails, the states found are exactly those that a run from the start state leads
to. -/
theorem reachableStates_eq_ok {a : Automaton S Q} (h : a.Unfailing) :
    ∃ states, a.reachableStates.outcome = .ok states ∧
      ∀ q, q ∈ states ↔ ∃ w, a.run a.start w = .ok q := by
  rcases reachableStates_cases a with ⟨_, hstates⟩ | ⟨⟨w, hw⟩, _⟩
  · exact hstates
  · exact absurd hw (h w)

/-- The search for the reachable states fails exactly when some run does. -/
theorem fails_reachableStates {a : Automaton S Q} :
    Fails a.reachableStates.outcome ↔ ∃ w, Fails (a.run a.start w) := by
  rcases reachableStates_cases a with ⟨hunfailing, states, hstates, _⟩ | ⟨hw, hfails⟩
  · rw [hstates]
    exact iff_of_false (not_fails_ok states) fun hw => not_unfailing.mpr hw hunfailing
  · exact iff_of_true hfails hw

end Reachable

/-! ## Emptiness and universality -/

/-- Emptiness asks whether a terminal state was found. -/
theorem isEmpty_outcome (a : Automaton S Q) :
    a.isEmpty.outcome =
      a.reachableStates.outcome >>= fun states => .ok !states.intersects a.terminal := by
  simp [isEmpty]

/-- The complement has the runs of the automaton and accepts the other words. -/
theorem exists_complement [LawfulIndexed Q] (a : Automaton S Q) :
    ∃ c, a.complement.outcome = .ok c ∧ (∀ w, c.run c.start w = a.run a.start w) ∧
      ∀ q, q ∈ c.terminal ↔ q ∉ a.terminal := by
  obtain ⟨c, hc, hstart, htransition, hterminal⟩ := complement_eq_ok a
  exact ⟨c, hc, fun w => by rw [hstart, run_congr (step_congr htransition)], hterminal⟩

/-- The complement accepts a word exactly when the automaton answers that it rejects it. -/
theorem accepts_complement [LawfulIndexed Q] {a c : Automaton S Q}
    (hrun : ∀ w, c.run c.start w = a.run a.start w)
    (hterminal : ∀ q, q ∈ c.terminal ↔ q ∉ a.terminal) (w : List S) :
    c.Accepts w ↔ a.accepts w = .ok false := by
  rw [accepts, bind_eq_ok]
  refine exists_congr fun q => and_congr (by rw [hrun]) ?_
  rw [isTerminal_eq, Except.ok.injEq, decide_eq_false_iff_not]
  exact hterminal q

section Empty

variable [LawfulIndexed S] [LawfulIndexed Q] {a : Automaton S Q}

/-- **Emptiness is decided.** A reachable terminal state is the end of the run of an accepted word,
and the other way round. -/
theorem isEmpty_decides (h : a.Unfailing) :
    Decides a.isEmpty.outcome (∀ w, ¬a.Accepts w) := by
  obtain ⟨states, hstates, hmem⟩ := reachableStates_eq_ok h
  refine ⟨!states.intersects a.terminal, by rw [isEmpty_outcome, hstates, ok_bind], ?_⟩
  rw [Bool.not_eq_true', Bool.eq_false_iff, Ne, StateSet.intersects_iff]
  constructor
  · intro hnone w hw
    obtain ⟨q, hq, hterminal⟩ := hw
    exact hnone ⟨q, (hmem q).mpr ⟨w, hq⟩, hterminal⟩
  · intro hnone hq
    obtain ⟨q, hq, hterminal⟩ := hq
    obtain ⟨w, hw⟩ := (hmem q).mp hq
    exact hnone w ⟨q, hw, hterminal⟩

/-- All reachable states are found before the question is answered, so no early answer spares a
failing run. -/
theorem fails_isEmpty : Fails a.isEmpty.outcome ↔ ∃ w, Fails (a.run a.start w) := by
  rw [isEmpty_outcome, fails_bind, fails_reachableStates]
  exact or_iff_left fun h => by
    obtain ⟨states, _, hfails⟩ := h
    exact not_fails_ok _ hfails

/-- **Universality is decided**, as emptiness of the complement. -/
theorem isUniversal_decides (h : a.Unfailing) :
    Decides a.isUniversal.outcome (∀ w, a.Accepts w) := by
  obtain ⟨c, hc, hrun, hterminal⟩ := exists_complement a
  have houtcome : a.isUniversal.outcome = c.isEmpty.outcome := by
    rw [isUniversal, Journal.outcome_bind, hc, ok_bind]
  -- the complement runs as the automaton does
  have hunfailing : c.Unfailing := fun w => by
    rw [hrun]
    exact h w
  rw [houtcome]
  refine (isEmpty_decides hunfailing).congr (forall_congr' fun w => ?_)
  rw [accepts_complement hrun hterminal, ← accepts_eq_true]
  obtain ⟨x, hx⟩ := h.accepts_ok w
  rw [hx]
  cases x <;> simp

/-- The complement has the same runs, so the question fails on the same occasions as emptiness. -/
theorem fails_isUniversal : Fails a.isUniversal.outcome ↔ ∃ w, Fails (a.run a.start w) := by
  obtain ⟨c, hc, hrun, _⟩ := exists_complement a
  rw [isUniversal, Journal.outcome_bind, hc, ok_bind, fails_isEmpty]
  exact exists_congr fun w => by rw [hrun]

end Empty

/-! ## Comparisons -/

section Compare

variable [LawfulIndexed S] [LawfulIndexed Q] [LawfulIndexed M] {op : Bool → Bool → Bool}
  {a : Automaton S Q} {b : Automaton S M} {c : Automaton S (Q × M)}

/-- A combination accepts no word when `op` is false of what its operands say to each word. -/
theorem Combines.isEmpty_decides (hfits : Indexed.count (Q × M) < indexLimit)
    (h : Combines op a b c) (ha : a.Unfailing) (hb : b.Unfailing) :
    Decides c.isEmpty.outcome
      (∀ w x y, a.accepts w = .ok x → b.accepts w = .ok y → op x y = false) := by
  have := LawfulIndexed.pair hfits
  refine (Automaton.isEmpty_decides (h.unfailing ha hb)).congr (forall_congr' fun w => ?_)
  obtain ⟨x, hx⟩ := ha.accepts_ok w
  obtain ⟨y, hy⟩ := hb.accepts_ok w
  rw [← accepts_eq_true, h.accepts_eq hfits hx hy, hx, hy]
  constructor
  · intro hnot x' y' hx' hy'
    cases hx'
    cases hy'
    exact Bool.eq_false_iff.mpr fun htrue => hnot (congrArg Except.ok htrue)
  · intro hfalse htrue
    rw [hfalse x y rfl rfl] at htrue
    cases htrue

/-- The runs of a combination fail exactly when one of the two runs does, so a combination is not
asked without either operand being run on all words. -/
theorem Combines.fails_isEmpty (hfits : Indexed.count (Q × M) < indexLimit)
    (h : Combines op a b c) :
    Fails c.isEmpty.outcome ↔ ∃ w, Fails (a.run a.start w) ∨ Fails (b.run b.start w) := by
  have := LawfulIndexed.pair hfits
  rw [Automaton.fails_isEmpty]
  exact exists_congr fun w => by rw [h.start_eq, h.fails_run]

theorem combine_isEmpty_decides (hfits : Indexed.count (Q × M) < indexLimit) (p : Pairing)
    (ha : a.Unfailing) (hb : b.Unfailing) :
    Decides (a.combine b p >>= isEmpty).outcome
      (∀ w x y, a.accepts w = .ok x → b.accepts w = .ok y → p.holds x y = false) := by
  obtain ⟨c, hc, hcombines⟩ := combine_eq_ok hfits p a b
  rw [Journal.outcome_bind, hc, ok_bind]
  exact hcombines.isEmpty_decides hfits ha hb

theorem fails_combine_isEmpty (hfits : Indexed.count (Q × M) < indexLimit) (p : Pairing) :
    Fails (a.combine b p >>= isEmpty).outcome ↔
      ∃ w, Fails (a.run a.start w) ∨ Fails (b.run b.start w) := by
  obtain ⟨c, hc, hcombines⟩ := combine_eq_ok hfits p a b
  rw [Journal.outcome_bind, hc, ok_bind]
  exact hcombines.fails_isEmpty hfits

/-- **Inclusion is decided**: no word is accepted on the left and rejected on the right. -/
theorem isSubsetOf_decides (hfits : Indexed.count (Q × M) < indexLimit) (ha : a.Unfailing)
    (hb : b.Unfailing) : Decides (a.isSubsetOf b).outcome
      (∀ w, a.accepts w = .ok true → b.accepts w = .ok true) := by
  refine (combine_isEmpty_decides hfits .difference ha hb).congr (forall_congr' fun w => ?_)
  obtain ⟨x, hx⟩ := ha.accepts_ok w
  obtain ⟨y, hy⟩ := hb.accepts_ok w
  rw [hx, hy]
  cases x <;> cases y <;> simp [Pairing.holds]

/-- **Equality is decided**: no word gets different answers. -/
theorem isEquivalentTo_decides (hfits : Indexed.count (Q × M) < indexLimit) (ha : a.Unfailing)
    (hb : b.Unfailing) : Decides (a.isEquivalentTo b).outcome
      (∀ w, a.accepts w = .ok true ↔ b.accepts w = .ok true) := by
  refine (combine_isEmpty_decides hfits .symmetricDifference ha hb).congr
    (forall_congr' fun w => ?_)
  obtain ⟨x, hx⟩ := ha.accepts_ok w
  obtain ⟨y, hy⟩ := hb.accepts_ok w
  rw [hx, hy]
  cases x <;> cases y <;> simp [Pairing.holds]

/-- A comparison fails exactly when some word makes one of the two automata fail. -/
theorem fails_isSubsetOf (hfits : Indexed.count (Q × M) < indexLimit) :
    Fails (a.isSubsetOf b).outcome ↔
      ∃ w, Fails (a.run a.start w) ∨ Fails (b.run b.start w) :=
  fails_combine_isEmpty hfits .difference

theorem fails_isEquivalentTo (hfits : Indexed.count (Q × M) < indexLimit) :
    Fails (a.isEquivalentTo b).outcome ↔
      ∃ w, Fails (a.run a.start w) ∨ Fails (b.run b.start w) :=
  fails_combine_isEmpty hfits .symmetricDifference

end Compare

/-! ## All four questions -/

/-- **The questions about languages are decided.** When no run fails each of the four questions gets
an answer, and it is yes exactly when the statement about all words holds. As for every type of
pairs, the number of pairs of states has to be an index. -/
theorem language_questions_decided {T P : Type} [Indexed T] [Indexed P] [LawfulIndexed T]
    [LawfulIndexed P] [LawfulIndexed S] [LawfulIndexed Q] [LawfulIndexed M]
    (d : Automaton T P) (l : Automaton S Q) (m : Automaton S M)
    (hd : d.Unfailing) (hl : l.Unfailing) (hm : m.Unfailing)
    (hfits : Indexed.count (Q × M) < indexLimit) :
    Decides d.isEmpty.outcome (∀ w, d.accepts w ≠ .ok true) ∧
      Decides d.isUniversal.outcome (∀ w, d.accepts w = .ok true) ∧
      Decides (l.isSubsetOf m).outcome (∀ w, l.accepts w = .ok true → m.accepts w = .ok true) ∧
      Decides (l.isEquivalentTo m).outcome
        (∀ w, l.accepts w = .ok true ↔ m.accepts w = .ok true) := by
  refine ⟨?_, ?_, isSubsetOf_decides hfits hl hm, isEquivalentTo_decides hfits hl hm⟩
  · exact (isEmpty_decides hd).congr (forall_congr' fun w => not_congr accepts_eq_true.symm)
  · exact (isUniversal_decides hd).congr (forall_congr' fun w => accepts_eq_true.symm)

/-- Accepts the words that are empty or end in `false`. From the states `2` and `3` it does not know
where to go, but no word leads there. -/
def endsInFalse : Automaton Bool (Fin 4) where
  start := 0
  terminal := ⟨((BitSet.full 4).remove 1).2, rfl⟩
  transition := .computed fun q s =>
    if q < 2 then .ok (if s then 1 else 0) else .error (.beyondBound q.val 2)

/-- Accepts every word. -/
def everyWord : Automaton Bool Unit := ⟨(), ⟨BitSet.full 1, rfl⟩, .computed fun _ _ => .ok ()⟩

/-- The first two states are closed under steps, and no run leaves them. -/
theorem endsInFalse_unfailing : endsInFalse.Unfailing :=
  unfailing_of_closed (P := (· < 2)) (by decide) fun _ s hq => ⟨_, if_pos hq, by cases s <;> decide⟩

theorem everyWord_unfailing : everyWord.Unfailing := Total.unfailing fun _ _ => ⟨(), rfl⟩

/-- Two states have no successors, but no word leads to them, and all four questions are decided. -/
theorem language_questions_decided_endsInFalse :
    Decides endsInFalse.isEmpty.outcome (∀ w, endsInFalse.accepts w ≠ .ok true) ∧
      Decides endsInFalse.isUniversal.outcome (∀ w, endsInFalse.accepts w = .ok true) ∧
      Decides (endsInFalse.isSubsetOf everyWord).outcome
        (∀ w, endsInFalse.accepts w = .ok true → everyWord.accepts w = .ok true) ∧
      Decides (endsInFalse.isEquivalentTo everyWord).outcome
        (∀ w, endsInFalse.accepts w = .ok true ↔ everyWord.accepts w = .ok true) :=
  language_questions_decided endsInFalse endsInFalse everyWord endsInFalse_unfailing
    endsInFalse_unfailing everyWord_unfailing (by decide)

example : endsInFalse.isUniversal.outcome = .ok false := by cbv

end Automata.Automaton
