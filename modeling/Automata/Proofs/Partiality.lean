import Automata.Proofs.Counts
import Automata.Proofs.Decisions

/-!
# Partial transition functions

A transition function may meet faults, and which questions fail because of that is a matter of which
steps a question needs. Reachability and what is built on it needs the steps of every run, counting
those of the runs of its length, the shortest accepted word those of the words that come before it,
and a table needs all of them. An answer, on the other hand, does not depend on the steps that were
not needed: `Agrees` compares an automaton with one that takes the same steps where it takes any,
and the answers carry over.
-/

namespace Automata

/-! ## Searches with more steps -/

namespace Search

variable {S Q : Type} [Indexed Q] {step step' : Q → S → Checked Q}

/-- A state that was expanded without a fault is expanded in the same way when there are more steps:
every step that was taken is still there. -/
theorem expand_agrees (h : ∀ q s r, step q s = .ok r → step' q s = .ok r) {q : Q} :
    ∀ (symbols : List S) {t t' : Search S Q}, t.expand step q symbols = (t', none) →
      t.expand step' q symbols = (t', none) := by
  intro symbols
  induction symbols with
  | nil => intro t t' ht; exact ht
  | cons s symbols ih =>
    intro t t' ht
    rw [expand] at ht ⊢
    cases hstep : step q s with
    | error fault =>
      rw [hstep] at ht
      cases ht
    | ok r =>
      rw [hstep] at ht
      rw [h q s r hstep]
      -- the steps agree, and what is done with the successor does not depend on them
      cases hdiscover : t.discover q s r with
      | error fault =>
        simp only [hdiscover] at ht
        cases ht
      | ok t₁ =>
        simp only [hdiscover] at ht ⊢
        exact ih ht

/-- The same of one iteration of the search, unless it ends in a fault. The goal is tested before
any step, so a search that ends at the goal needs no step for it. -/
theorem advance_agrees (h : ∀ q s r, step q s = .ok r → step' q s = .ok r)
    {goal : Q → Checked Bool} {symbols : List S} {t t' : Search S Q} {ending? : Option (Ending Q)}
    (ht : t.advance step goal symbols = (t', ending?))
    (hok : ∀ fault, ending? ≠ some (.failed fault)) :
    t.advance step' goal symbols = (t', ending?) := by
  rw [advance] at ht ⊢
  split at ht
  next => exact ht
  next q hq =>
    cases hgoal : goal q with
    | error fault =>
      simp only [hgoal] at ht ⊢
      exact ht
    | ok b =>
      cases b with
      | true =>
        -- the search ends before it takes a step
        simp only [hgoal] at ht ⊢
        exact ht
      | false =>
        simp only [hgoal] at ht ⊢
        cases hexpand : { t with taken := t.taken + 1 }.expand step q symbols with
        | mk t₁ fault? =>
          rw [hexpand] at ht
          cases fault? with
          | none =>
            rw [expand_agrees h symbols hexpand]
            exact ht
          | some fault =>
            cases ht
            exact absurd rfl (hok fault)

/-- So a search of any number of iterations goes the same way to the same end. -/
theorem explore_agrees (h : ∀ q s r, step q s = .ok r → step' q s = .ok r)
    {goal : Q → Checked Bool} {symbols : List S} : ∀ (n : Nat) {t t' : Search S Q}
    {ending : Ending Q}, explore step goal symbols n t = (t', ending) →
      (∀ fault, ending ≠ .failed fault) → explore step' goal symbols n t = (t', ending) := by
  intro n
  induction n with
  | zero => intro t t' ending ht _; exact ht
  | succ n ih =>
    intro t t' ending ht hok
    rw [explore] at ht ⊢
    cases hadvance : t.advance step goal symbols with
    | mk t₁ ending? =>
      rw [hadvance] at ht
      cases ending? with
      | none =>
        rw [advance_agrees h hadvance (fun fault heq => by cases heq)]
        exact ih ht hok
      | some ending₁ =>
        cases ht
        rw [advance_agrees h hadvance (fun fault heq => hok fault (Option.some.inj heq))]

end Search

namespace Automaton

variable {S Q M : Type} [Indexed S] [Indexed Q] [Indexed M]

/-- The second automaton starts where the first does, has the same terminal states, and takes the
steps that the first takes. -/
structure Agrees (a b : Automaton S Q) : Prop where
  start_eq : b.start = a.start
  terminal_eq : b.terminal = a.terminal
  step_eq : ∀ q s r, a.step q s = .ok r → b.step q s = .ok r

namespace Agrees

variable {a b : Automaton S Q}

/-- A search that ends without a fault ends in the same way with more steps. -/
theorem search_eq (h : a.Agrees b) {goal : Q → Checked Bool} {t : Search S Q}
    {ending : Search.Ending Q} (hrun : Search.run a goal = .ok (t, ending))
    (hok : ∀ fault, ending ≠ .failed fault) : Search.run b goal = .ok (t, ending) := by
  obtain ⟨symbols, hsymbols, hrun⟩ := bind_eq_ok.mp hrun
  obtain ⟨t₀, hinit, hrun⟩ := bind_eq_ok.mp hrun
  rw [Search.run, hsymbols, h.start_eq, hinit]
  exact congrArg Except.ok (Search.explore_agrees h.step_eq _ (Except.ok.inj hrun) hok)

/-- The states found with fewer steps are those found with more: the search came to its end without
the steps that were missing. -/
theorem reachableStates_eq (h : a.Agrees b) {states : StateSet Q}
    (ha : a.reachableStates.outcome = .ok states) : b.reachableStates.outcome = .ok states := by
  rw [reachableStates_outcome] at ha ⊢
  obtain ⟨⟨t, ending⟩, hrun, hending⟩ := bind_eq_ok.mp ha
  rw [h.search_eq hrun fun fault heq => by rw [heq] at hending; cases hending]
  exact hending

/-- An answer about emptiness carries over, with the states that it was read off. -/
theorem isEmpty_eq (h : a.Agrees b) {x : Bool} (ha : a.isEmpty.outcome = .ok x) :
    b.isEmpty.outcome = .ok x := by
  rw [isEmpty_outcome] at ha ⊢
  obtain ⟨states, hstates, hx⟩ := bind_eq_ok.mp ha
  rw [h.reachableStates_eq hstates, h.terminal_eq]
  exact hx

/-- The complements agree as well, so an answer about universality carries over. -/
theorem isUniversal_eq (h : a.Agrees b) {x : Bool} (ha : a.isUniversal.outcome = .ok x) :
    b.isUniversal.outcome = .ok x := by
  rw [isUniversal, Journal.outcome_bind, complement_outcome, ok_bind] at ha ⊢
  have hcomplement : Agrees ⟨a.start, a.terminal.complement, a.transition⟩
      ⟨b.start, b.terminal.complement, b.transition⟩ :=
    ⟨h.start_eq, congrArg StateSet.complement h.terminal_eq, h.step_eq⟩
  exact hcomplement.isEmpty_eq ha

/-- A word that was found is found again, and if none was, there is still none. -/
theorem shortestAccepted_eq (h : a.Agrees b) {x : Option (List S)}
    (ha : a.shortestAccepted.outcome = .ok x) : b.shortestAccepted.outcome = .ok x := by
  rw [shortestAccepted_outcome] at ha ⊢
  obtain ⟨⟨t, ending⟩, hrun, hending⟩ := bind_eq_ok.mp ha
  have hgoal : b.isTerminal = a.isTerminal := by
    funext q
    rw [isTerminal, isTerminal, h.terminal_eq]
  rw [hgoal, h.search_eq hrun fun fault heq => by rw [heq] at hending; cases hending]
  exact hending

/-- Handing the ways to a state on to its successors took only steps that both have. -/
theorem spreadFrom_eq (h : a.Agrees b) {q : Q} {n : Nat} : ∀ (symbols : List S) {next x : Ways},
    a.spreadFrom q n symbols next = .ok x → b.spreadFrom q n symbols next = .ok x := by
  intro symbols
  induction symbols with
  | nil => intro next x ha; exact ha
  | cons s symbols ih =>
    intro next x ha
    rw [spreadFrom] at ha ⊢
    obtain ⟨r, hr, ha⟩ := bind_eq_ok.mp ha
    obtain ⟨i, hi, ha⟩ := bind_eq_ok.mp ha
    obtain ⟨next₁, hnext₁, ha⟩ := bind_eq_ok.mp ha
    rw [h.step_eq q s r hr, ok_bind, hi, ok_bind, hnext₁, ok_bind]
    exact ih ha

theorem spread_eq (h : a.Agrees b) {symbols : List S} {ways : Ways} : ∀ (states : List Q)
    {next x : Ways}, a.spread symbols ways states next = .ok x →
      b.spread symbols ways states next = .ok x := by
  intro states
  induction states with
  | nil => intro next x ha; exact ha
  | cons q states ih =>
    intro next x ha
    rw [spread] at ha ⊢
    obtain ⟨i, hi, ha⟩ := bind_eq_ok.mp ha
    obtain ⟨n, hn, ha⟩ := bind_eq_ok.mp ha
    rw [hi, ok_bind, hn, ok_bind]
    split at ha
    next hzero =>
      rw [if_pos hzero]
      exact ih ha
    next hsome =>
      obtain ⟨next₁, hnext₁, ha⟩ := bind_eq_ok.mp ha
      rw [if_neg hsome, h.spreadFrom_eq symbols hnext₁, ok_bind]
      exact ih ha

/-- Symbol by symbol, the counts carry over. -/
theorem lengthen_eq (h : a.Agrees b) {symbols : List S} {states : List Q} : ∀ (n : Nat)
    {ways x : Ways}, a.lengthen symbols states n ways = .ok x →
      b.lengthen symbols states n ways = .ok x := by
  intro n
  induction n with
  | zero => intro ways x ha; exact ha
  | succ n ih =>
    intro ways x ha
    rw [lengthen] at ha ⊢
    obtain ⟨next, hnext, ha⟩ := bind_eq_ok.mp ha
    rw [h.spread_eq states hnext, ok_bind]
    exact ih ha

/-- A number of accepted words carries over. -/
theorem countAccepted_eq (h : a.Agrees b) {n x : Nat} (ha : a.countAccepted n = .ok x) :
    b.countAccepted n = .ok x := by
  rw [countAccepted] at ha ⊢
  obtain ⟨symbols, hsymbols, ha⟩ := bind_eq_ok.mp ha
  obtain ⟨states, hstates, ha⟩ := bind_eq_ok.mp ha
  obtain ⟨ways₀, hempty, ha⟩ := bind_eq_ok.mp ha
  obtain ⟨ways, hways, ha⟩ := bind_eq_ok.mp ha
  have hempty' : b.emptyWordWays = .ok ways₀ := by
    rw [emptyWordWays, h.start_eq]
    exact hempty
  rw [hsymbols, ok_bind, hstates, ok_bind, hempty', ok_bind, h.lengthen_eq n hways, ok_bind,
    h.terminal_eq]
  exact ha

end Agrees

/-! ## Which steps a question needs -/

section Needs

variable [LawfulIndexed S] [LawfulIndexed Q] {a : Automaton S Q}

/-- The search for a shortest accepted word fails exactly when a step fails that continues a word
which comes before all accepted words. -/
theorem fails_shortestAccepted :
    Fails a.shortestAccepted.outcome ↔ ∃ u q s, a.run a.start u = .ok q ∧
      (∀ w, a.accepts w = .ok true → Shortlex u w) ∧ Fails (a.step q s) := by
  obtain ⟨t, ending, hrun, hanswer⟩ :=
    Search.run_answer a a.isTerminal fun q => ⟨_, isTerminal_eq a q⟩
  rw [shortestAccepted_outcome, hrun, ok_bind]
  cases hanswer with
  | exhausted hruns _ =>
    -- the search took every step there is to take, and none failed
    refine iff_of_false (not_fails_ok _) fun h => ?_
    obtain ⟨u, q, s, hq, _, hfail⟩ := h
    obtain ⟨r, hr, _⟩ := hruns (u ++ [s])
    rw [run_concat hq] at hr
    exact not_fails_iff.mpr ⟨r, hr⟩ hfail
  | reached q w hword hw hgoal _ hsteps =>
    refine iff_of_false ?_ fun h => ?_
    · simp only [hword]
      exact not_fails_ok _
    · obtain ⟨u, p, s, hp, hearlier, hfail⟩ := h
      exact hsteps u p hp (hearlier w (bind_eq_ok.mpr ⟨q, hw, hgoal⟩)) s hfail
  | failed q w s fault hw hfail hlater =>
    refine iff_of_true (fails_error fault) ⟨w, q, s, hw, fun u hu => ?_, ⟨fault, hfail⟩⟩
    exact hlater u (bind_eq_ok.mp hu)

/-- Tabulating a computed transition function fails exactly when some step fails, whether a run
comes to it or not. -/
theorem fails_tabulate {f : Q → S → Checked Q} (ha : a.transition = .computed f)
    (hfits : Table.fits Q = true) : Fails a.tabulate.outcome ↔ ∃ q s, Fails (a.step q s) := by
  have hstep : ∀ q s, a.step q s = f q s := fun q s => by
    rw [step, ha]
    rfl
  rw [tabulate_outcome ha, fails_bind, Table.fails_ofFunction hfits]
  simp only [hstep, not_fails_ok, and_false, exists_false, or_false]

end Needs

end Automaton

end Automata
