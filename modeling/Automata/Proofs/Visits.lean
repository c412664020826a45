import Mathlib.Order.Lattice.Nat
import Automata.Proofs.ShortestWords

/-!
# Visits

The search for the reachable states writes a record when it takes a state up, and one at the end
with the number of states it found. What the records say is the book behind the search (`Discovery`)
without its words: when the search has expanded all it found, every reachable state stands in the
book once, the word beside it is the first of all words that lead to it
(`Records.isFirstTo`), and the entries are in the order of these words.

> `reachableStates_visits`: if no run fails, the search answers with the states that words lead to,
> and its records are one visit to each of them, in the order of the first words that lead to them,
> and the two numbers at the end.

That the visits go by increasing distance from the start state is part of the order: a word that
comes before another is no longer than it.
-/

namespace Automata

variable {S Q : Type} [Indexed S] [Indexed Q]

/-- A set of states has as many states as the set in the plain sense has elements. -/
theorem StateSet.len_eq_ncard [LawfulIndexed Q] {s : StateSet Q} {states : Set Q}
    (h : ∀ q, q ∈ s ↔ q ∈ states) : s.len = states.ncard := by
  have hnodup : ((values Q).filter (· ∈ s)).Nodup := nodup_values.filter _
  have hstates :
      states = ((⟨((values Q).filter (· ∈ s) : List Q), hnodup⟩ : Finset Q) : Set Q) := by
    ext q
    rw [Finset.mem_coe, ← h]
    show q ∈ s ↔ q ∈ (values Q).filter (· ∈ s)
    rw [List.mem_filter, and_iff_right (mem_values q), decide_eq_true_eq]
  rw [hstates, Set.ncard_coe_finset, StateSet.len_eq]
  rfl

namespace Automaton

/-! ## The order of the states -/

/-- The word is the first of those that lead from the start state to the state. -/
def IsFirstTo (a : Automaton S Q) (q : Q) (w : List S) : Prop :=
  IsFirst (fun u => a.run a.start u = .ok q) (some w)

/-- The first word that leads to `p` comes before the first that leads to `q`. -/
def Precedes (a : Automaton S Q) (p q : Q) : Prop :=
  ∃ u w, a.IsFirstTo p u ∧ a.IsFirstTo q w ∧ Shortlex u w

/-- The number of symbols that it takes to come from the start state to the state. -/
noncomputable def distance (a : Automaton S Q) (q : Q) : Nat :=
  sInf {n | ∃ w, w.length = n ∧ a.run a.start w = .ok q}

/-- The first word to a state is as short as any. -/
theorem IsFirstTo.distance_eq {a : Automaton S Q} {q : Q} {w : List S} (h : a.IsFirstTo q w) :
    a.distance q = w.length := by
  have hmem : w.length ∈ {n | ∃ u, u.length = n ∧ a.run a.start u = .ok q} :=
    ⟨w, rfl, h.holds w rfl⟩
  refine Nat.le_antisymm (Nat.sInf_le hmem) ?_
  obtain ⟨u, hlen, hu⟩ := Nat.sInf_mem ⟨w.length, hmem⟩
  unfold distance
  rw [← hlen]
  exact (h.le w rfl u hu).length_le

theorem Precedes.distance_le {a : Automaton S Q} {p q : Q} (h : a.Precedes p q) :
    a.distance p ≤ a.distance q := by
  obtain ⟨u, w, hu, hw, hlt⟩ := h
  rw [hu.distance_eq, hw.distance_eq]
  exact hlt.length_le

end Automaton

/-! ## The words of the book are first -/

namespace Search

section Book

variable {a : Automaton S Q} {t : Search S Q} {book : List (Q × List S)} {goal : Q → Checked Bool}
  {k : Nat}

/-- When the words of the book come before the continuations of the first state that was not
expanded, each state stands beside the first word that leads to it. -/
theorem Records.isFirstTo (h : Records a t book) (hprogress : Progress a goal book k)
    (hbefore : ∀ p u s, book[k]? = some (p, u) → ∀ q w, (q, w) ∈ book → Shortlex w (u ++ [s]))
    {q : Q} {w : List S} (hq : (q, w) ∈ book) : a.IsFirstTo q w := by
  refine isFirst_some (h.run_eq q w hq) fun v hv => ?_
  -- a state is entered only once
  have hunique : ∀ {u : List S}, (q, u) ∈ book → u = w := fun hu =>
    congrArg Prod.snd (List.inj_on_of_nodup_map h.nodup hu hq rfl)
  rcases List.eq_nil_or_concat v with rfl | ⟨u, s, rfl⟩
  · cases hv
    exact Or.inl (hunique (List.mem_of_getElem? h.head)).symm
  · rw [List.concat_eq_append] at hv ⊢
    obtain ⟨p, hp, hstep⟩ := Automaton.run_concat_eq_ok.mp hv
    rcases hprogress.expandedOrLater h hp with ⟨i, x, hik, hi, hle⟩ | ⟨r, x, hr, hcases⟩
    · obtain ⟨r, y, hr, hy, hyle⟩ := hprogress.expanded i p x hik hi s
      obtain rfl : q = r := Except.ok.inj (hstep.symm.trans hr)
      rw [← hunique hy]
      exact hyle.trans (hle.concat s)
    · have hle : ShortlexLe x u := hcases.elim And.right Or.inr
      exact Or.inr ((hbefore r x s hr q w hq).trans_le (hle.concat s))

/-- The book is in the order of its words, and each of its words is the first to its state. -/
theorem Records.pairwise_precedes (h : Records a t book) (hprogress : Progress a goal book k)
    (hlen : book.length ≤ k) : (book.map Prod.fst).Pairwise a.Precedes := by
  have hfirst : ∀ {x : Q × List S}, x ∈ book → a.IsFirstTo x.1 x.2 :=
    h.isFirstTo hprogress fun p u s hp => by
      rw [List.getElem?_eq_none hlen] at hp
      cases hp
  rw [List.pairwise_map]
  refine (List.pairwise_map.mp h.sorted).imp_of_mem fun {x y} hx hy hlt => ?_
  exact ⟨x.2, y.2, hfirst hx, hfirst hy, hlt⟩

theorem Records.expanded_eq (h : Records a t book) (hlen : book.length ≤ t.taken) :
    t.expanded = book.map Prod.fst := by
  rw [expanded, h.found_eq, List.take_of_length_le]
  rwa [List.length_map]

end Book

end Search

/-! ## The records -/

/-- A reader who asks for the finest level sees every record. -/
theorem Record.shownAt_trace (r : Record) : r.shownAt .trace = true := by
  cases r <;> rfl

namespace Automaton

theorem reachableStates_eq_of_exhausted {a : Automaton S Q} {t : Search S Q}
    (h : Search.run a (fun _ => .ok false) = .ok (t, .exhausted)) :
    a.reachableStates = ⟨t.expanded.map (fun q => .visiting (Indexed.describe q)) ++
      [.reachable t.visited.len (Indexed.count Q)], .ok t.visited⟩ := by
  rw [reachableStates, h]
  rfl

variable [LawfulIndexed S] [LawfulIndexed Q]

/-- When no run fails, the search for the reachable states ends with all of them expanded. -/
theorem Unfailing.exhausted {a : Automaton S Q} (h : a.Unfailing) :
    ∃ t book k, Search.run a (fun _ => .ok false) = .ok (t, .exhausted) ∧ k ≤ t.taken ∧
      Search.Records a t book ∧ Search.Progress a (fun _ => .ok false) book k ∧
      book.length ≤ k := by
  have hgoal : ∀ q, ∃ b, (fun _ : Q => (.ok false : Checked Bool)) q = .ok b :=
    fun _ => ⟨false, rfl⟩
  obtain ⟨t, ending, book, k, hrun, htaken, hrecords, hprogress, hverdict⟩ :=
    Search.run_spec a hgoal
  cases hverdict with
  | exhausted hlen => exact ⟨t, book, k, hrun, htaken, hrecords, hprogress, hlen⟩
  | reached q w _ hgoal => cases hgoal
  | failed q w s fault hq _ hfail =>
    obtain ⟨r, hr⟩ := h.step_ok (hrecords.run_eq q w (List.mem_of_getElem? hq)) s
    rw [hfail] at hr
    cases hr

/-- **Every reachable state is visited once, in order.** If no run fails, the search for the
reachable states finds the states that words lead to, and nothing else. Its records at the finest
level are one visit to each of them, in the order of the first words that lead to the states, and so
by increasing distance from the start state; behind them stands one record with the number of
reachable states and that of all states, the only one of the records that is left at the level of
debugging. -/
theorem reachableStates_visits (d : Automaton S Q) (hd : d.Unfailing) :
    ∃ (states : StateSet Q) (visits : List Q), d.reachableStates.outcome = .ok states ∧
      (∀ q, q ∈ states ↔ ∃ w, d.run d.start w = .ok q) ∧
      d.reachableStates.entries.filter (·.shownAt .trace) =
        visits.map (fun q => .visiting (Indexed.describe q)) ++
          [.reachable d.reachable.ncard (Indexed.count Q)] ∧
      d.reachableStates.entries.filter (·.shownAt .debug) =
        [.reachable d.reachable.ncard (Indexed.count Q)] ∧
      visits.Nodup ∧ (∀ q, q ∈ visits ↔ ∃ w, d.run d.start w = .ok q) ∧
      visits.Pairwise d.Precedes ∧ visits.Pairwise fun p q => d.distance p ≤ d.distance q := by
  obtain ⟨states, hstates, hmem⟩ := reachableStates_eq_ok hd
  obtain ⟨t, book, k, hrun, htaken, hrecords, hprogress, hlen⟩ := hd.exhausted
  have hlog := reachableStates_eq_of_exhausted hrun
  obtain rfl : t.visited = states := by
    rw [hlog] at hstates
    exact Except.ok.inj hstates
  have hcount : t.visited.len = d.reachable.ncard := StateSet.len_eq_ncard hmem
  have hvisits := hrecords.expanded_eq (Nat.le_trans hlen htaken)
  have hordered := hrecords.pairwise_precedes hprogress hlen
  rw [hcount, hvisits] at hlog
  refine ⟨t.visited, book.map Prod.fst, hstates, hmem, ?_, ?_, hrecords.nodup, fun q => ?_,
    hordered, hordered.imp Precedes.distance_le⟩
  · rw [hlog]
    exact List.filter_eq_self.mpr fun r _ => r.shownAt_trace
  · -- at the coarser level the visits are left out, and one record is left
    have hfiner : ∀ r ∈ (book.map Prod.fst).map (fun q => Record.visiting (Indexed.describe q)),
        ¬r.shownAt .debug = true := by
      intro r hr
      obtain ⟨q, _, rfl⟩ := List.mem_map.mp hr
      exact Bool.false_ne_true
    rw [hlog, List.filter_append, List.filter_eq_nil_iff.mpr hfiner]
    rfl
  · rw [← hrecords.mem_visited]
    exact hmem q

/-- Multiplies the state by three and adds two or four, modulo five. The state `5` is never reached,
and has no successors. -/
def tripling : Automaton Bool (Fin 6) where
  start := 0
  terminal := .empty
  transition := .computed fun q s =>
    if q < 5 then .ok ⟨(3 * q.val + if s then 4 else 2) % 5, by omega⟩
    else .error (.beyondBound q.val 5)

/-- Each of the five states is a successor of two, and the visits do not follow their numbers. -/
theorem reachableStates_visits_tripling :
    tripling.Unfailing ∧ tripling.reachable.ncard = 5 ∧
      [0, 2, 4, 3, 1].Pairwise tripling.Precedes := by
  have hunfailing : tripling.Unfailing :=
    unfailing_of_closed (P := (· < 5)) (by decide) fun _ _ hq =>
      ⟨_, if_pos hq, Nat.mod_lt _ (by decide)⟩
  obtain ⟨_, visits, _, _, hlog, _, _, _, hordered, _⟩ :=
    reachableStates_visits tripling hunfailing
  have hentries : tripling.reachableStates.entries.filter (·.shownAt .trace) =
      [0, 2, 4, 3, 1].map (fun q : Fin 6 => .visiting (Indexed.describe q)) ++
        [.reachable 5 6] := by decide +kernel
  obtain ⟨hvisits, hlast⟩ := List.append_inj' (hentries.symm.trans hlog) rfl
  have hinjective : Function.Injective fun q : Fin 6 => Record.visiting (Indexed.describe q) := by
    unfold Function.Injective
    decide +kernel
  rw [← List.map_injective_iff.mpr hinjective hvisits] at hordered
  refine ⟨hunfailing, ?_, hordered⟩
  injection hlast with hlast
  injection hlast with hlast
  exact hlast.symm

end Automaton

end Automata
