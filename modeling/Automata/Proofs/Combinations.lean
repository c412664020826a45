import Automata.Automaton.Boolean
import Automata.Proofs.Runs
import Automata.Proofs.Tables

/-!
# Combined automata

Each way of combining two automata pairs their transition functions and differs in the pairs that
are terminal: `Combines` says for which truth values of "the left state is terminal" and "the right
state is terminal" a pair is. Union and difference are made from complements and an intersection,
the symmetric difference from two intersections; `combine_eq_ok` says that all four come out as
`Pairing.holds` has it. A run of the combination is the two runs side by side
(`Combines.run_eq_ok`), and fails when one of them does (`Combines.fails_run`).
-/

namespace Automata

/-- Whether a combination accepts what its operands accept as the two truth values say. -/
def Pairing.holds : Pairing → Bool → Bool → Bool
  | .intersect, x, y => x && y
  | .union, x, y => x || y
  | .difference, x, y => x && !y
  | .symmetricDifference, x, y => x ^^ y

namespace Automaton

variable {S Q M : Type} [Indexed S] [Indexed Q] [Indexed M]

/-- Combines two automata. -/
def combine (a : Automaton S Q) (b : Automaton S M) :
    Pairing → Logged Fault (Automaton S (Q × M))
  | .intersect => a.intersect b
  | .union => a.union b
  | .difference => a.difference b
  | .symmetricDifference => a.symmetricDifference b

/-- The automaton `c` runs `a` and `b` side by side, and its terminal pairs are those for which
`op` holds of the two truth values. -/
structure Combines (op : Bool → Bool → Bool) (a : Automaton S Q) (b : Automaton S M)
    (c : Automaton S (Q × M)) : Prop where
  start_eq : c.start = (a.start, b.start)
  transition_eq : c.transition = a.transition.pair b.transition
  mem_terminal : ∀ q m, (q, m) ∈ c.terminal ↔
    op (decide (q ∈ a.terminal)) (decide (m ∈ b.terminal)) = true

/-! ## Complement -/

/-- A complement is made without looking at any step. -/
theorem complement_outcome (a : Automaton S Q) :
    a.complement.outcome = .ok ⟨a.start, a.terminal.complement, a.transition⟩ := rfl

/-- A complement differs from the automaton in its terminal states only: these are the others. -/
theorem complement_eq_ok [LawfulIndexed Q] (a : Automaton S Q) :
    ∃ c, a.complement.outcome = .ok c ∧ c.start = a.start ∧ c.transition = a.transition ∧
      ∀ q, q ∈ c.terminal ↔ q ∉ a.terminal :=
  ⟨_, complement_outcome a, rfl, rfl, fun _ => StateSet.mem_complement⟩

/-! ## Combinations of two automata -/

section Pairs

variable [LawfulIndexed Q] [LawfulIndexed M]

/-- The terminal pairs of an intersection are the product of the two sets. -/
theorem intersect_eq_ok (hfits : Indexed.count (Q × M) < indexLimit) (a : Automaton S Q)
    (b : Automaton S M) :
    ∃ c, (a.intersect b).outcome = .ok c ∧ Combines Pairing.intersect.holds a b c := by
  obtain ⟨terminal, hproduct, hmem⟩ := StateSet.product_eq_ok hfits a.terminal b.terminal
  refine ⟨⟨(a.start, b.start), terminal, a.transition.pair b.transition⟩, ?_, rfl, rfl, ?_⟩
  · simp [intersect, recordCombine, make, record, hproduct]
  · intro q m
    rw [hmem, Pairing.holds, Bool.and_eq_true, decide_eq_true_eq, decide_eq_true_eq]

/-- A difference is the intersection with a complement. -/
theorem difference_eq_ok (hfits : Indexed.count (Q × M) < indexLimit) (a : Automaton S Q)
    (b : Automaton S M) :
    ∃ c, (a.difference b).outcome = .ok c ∧ Combines Pairing.difference.holds a b c := by
  obtain ⟨b', hb', hstart, htransition, hterminal⟩ := complement_eq_ok b
  obtain ⟨c, hc, hcombines⟩ := intersect_eq_ok hfits a b'
  refine ⟨c, ?_, ?_, ?_, ?_⟩
  · simp [difference, recordCombine, record, hb', hc]
  · rw [hcombines.start_eq, hstart]
  · rw [hcombines.transition_eq, htransition]
  · intro q m
    rw [hcombines.mem_terminal, Pairing.holds, Pairing.holds]
    simp only [hterminal, decide_not]

/-- A union is the complement of what neither operand accepts. -/
theorem union_eq_ok (hfits : Indexed.count (Q × M) < indexLimit) (a : Automaton S Q)
    (b : Automaton S M) :
    ∃ c, (a.union b).outcome = .ok c ∧ Combines Pairing.union.holds a b c := by
  have := LawfulIndexed.pair hfits
  obtain ⟨a', ha', hastart, hatransition, haterminal⟩ := complement_eq_ok a
  obtain ⟨b', hb', hbstart, hbtransition, hbterminal⟩ := complement_eq_ok b
  obtain ⟨n, hn, hneither⟩ := intersect_eq_ok hfits a' b'
  obtain ⟨c, hc, hcstart, hctransition, hcterminal⟩ := complement_eq_ok n
  refine ⟨c, ?_, ?_, ?_, ?_⟩
  · simp [union, recordCombine, record, ha', hb', hn, hc]
  · rw [hcstart, hneither.start_eq, hastart, hbstart]
  · rw [hctransition, hneither.transition_eq, hatransition, hbtransition]
  · intro q m
    rw [hcterminal, hneither.mem_terminal, Pairing.holds, Pairing.holds]
    simp only [haterminal, hbterminal, decide_not]
    -- De Morgan's law on the four truth values
    cases decide (q ∈ a.terminal) <;> cases decide (m ∈ b.terminal) <;> decide

/-- A symmetric difference unites the terminal pairs of two intersections, which have the same
steps. -/
theorem symmetricDifference_eq_ok (hfits : Indexed.count (Q × M) < indexLimit)
    (a : Automaton S Q) (b : Automaton S M) :
    ∃ c, (a.symmetricDifference b).outcome = .ok c ∧
      Combines Pairing.symmetricDifference.holds a b c := by
  obtain ⟨a', ha', hastart, hatransition, haterminal⟩ := complement_eq_ok a
  obtain ⟨b', hb', hbstart, hbtransition, hbterminal⟩ := complement_eq_ok b
  obtain ⟨l, hl, hleft⟩ := intersect_eq_ok hfits a b'
  obtain ⟨r, hr, hright⟩ := intersect_eq_ok hfits a' b
  obtain ⟨terminal, hunion, hmem⟩ := StateSet.union_eq_ok l.terminal r.terminal
  refine ⟨⟨l.start, terminal, l.transition⟩, ?_, ?_, ?_, ?_⟩
  · simp [symmetricDifference, recordCombine, record, make, ha', hb', hl, hr, hunion]
  · rw [hleft.start_eq, hbstart]
  · rw [hleft.transition_eq, hbtransition]
  · intro q m
    rw [hmem, hleft.mem_terminal, hright.mem_terminal, Pairing.holds, Pairing.holds]
    simp only [haterminal, hbterminal, decide_not]
    cases decide (q ∈ a.terminal) <;> cases decide (m ∈ b.terminal) <;> decide

/-- Every combination of two automata is made, and accepts as its name says. -/
theorem combine_eq_ok (hfits : Indexed.count (Q × M) < indexLimit) (p : Pairing)
    (a : Automaton S Q) (b : Automaton S M) :
    ∃ c, (a.combine b p).outcome = .ok c ∧ Combines p.holds a b c := by
  cases p with
  | intersect => exact intersect_eq_ok hfits a b
  | union => exact union_eq_ok hfits a b
  | difference => exact difference_eq_ok hfits a b
  | symmetricDifference => exact symmetricDifference_eq_ok hfits a b

end Pairs

/-! ## Runs side by side -/

namespace Combines

variable {op : Bool → Bool → Bool} {a : Automaton S Q} {b : Automaton S M}
  {c : Automaton S (Q × M)}

/-- A pair takes the left step first and then the right one. -/
theorem step_eq (h : Combines op a b c) (q : Q) (m : M) (s : S) :
    c.step (q, m) s = (do return (← a.step q s, ← b.step m s)) := by
  rw [step, h.transition_eq]
  rfl

/-- **A run of the combination is the two runs side by side.** -/
theorem run_eq_ok (h : Combines op a b c) : ∀ (word : List S) (q x : Q) (m y : M),
    c.run (q, m) word = .ok (x, y) ↔ a.run q word = .ok x ∧ b.run m word = .ok y := by
  intro word
  induction word with
  | nil => intro q x m y; simp [run]
  | cons s word ih =>
    intro q x m y
    rw [run_cons, run_cons, run_cons, h.step_eq]
    cases ha : a.step q s with
    | error f => simp
    | ok q' =>
      cases hb : b.step m s with
      | error f => simp
      | ok m' => exact ih q' x m' y

/-- A run of the combination fails when one of the two runs does. -/
theorem fails_run (h : Combines op a b c) (word : List S) (q : Q) (m : M) :
    Fails (c.run (q, m) word) ↔ Fails (a.run q word) ∨ Fails (b.run m word) := by
  cases ha : a.run q word with
  | error f =>
    have hne : Fails (c.run (q, m) word) := by
      -- if the pair came to an end, so would the left run
      refine Classical.byContradiction fun hc => ?_
      obtain ⟨⟨x, y⟩, hxy⟩ := not_fails_iff.mp hc
      rw [((h.run_eq_ok word q x m y).mp hxy).1] at ha
      cases ha
    simp [hne]
  | ok x =>
    cases hb : b.run m word with
    | error f =>
      have hne : Fails (c.run (q, m) word) := by
        refine Classical.byContradiction fun hc => ?_
        obtain ⟨⟨x, y⟩, hxy⟩ := not_fails_iff.mp hc
        rw [((h.run_eq_ok word q x m y).mp hxy).2] at hb
        cases hb
      simp [hne]
    | ok y =>
      rw [(h.run_eq_ok word q x m y).mpr ⟨ha, hb⟩]
      simp

theorem total (h : Combines op a b c) (ha : a.Total) (hb : b.Total) : c.Total := by
  intro p s
  obtain ⟨x, hx⟩ := ha p.1 s
  obtain ⟨y, hy⟩ := hb p.2 s
  refine ⟨(x, y), ?_⟩
  rw [h.step_eq p.1 p.2, hx, hy]
  rfl

theorem unfailing (h : Combines op a b c) (ha : a.Unfailing) (hb : b.Unfailing) :
    c.Unfailing := by
  intro word hfails
  rw [h.start_eq, h.fails_run] at hfails
  exact hfails.elim (ha word) (hb word)

theorem withStart (h : Combines op a b c) (q : Q) (m : M) :
    Combines op (a.withStart q) (b.withStart m) (c.withStart (q, m)) :=
  ⟨rfl, h.transition_eq, h.mem_terminal⟩

/-- The combination accepts what `op` makes of the two answers. -/
theorem accepts_eq [LawfulIndexed Q] [LawfulIndexed M]
    (hfits : Indexed.count (Q × M) < indexLimit) (h : Combines op a b c) {word : List S}
    {x y : Bool} (hx : a.accepts word = .ok x) (hy : b.accepts word = .ok y) :
    c.accepts word = .ok (op x y) := by
  have := LawfulIndexed.pair hfits
  obtain ⟨q, hq, hqx⟩ := bind_eq_ok.mp hx
  obtain ⟨m, hm, hmy⟩ := bind_eq_ok.mp hy
  rw [isTerminal_eq, Except.ok.injEq] at hqx hmy
  have hrun : c.run c.start word = .ok (q, m) := by
    rw [h.start_eq]
    exact (h.run_eq_ok word _ q _ m).mpr ⟨hq, hm⟩
  rw [accepts_of_run hrun, ← hqx, ← hmy]
  simp only [h.mem_terminal, Bool.decide_eq_true]

end Combines

/-! ## Tabulation -/

/-- Where the successors are computed, tabulating comes down to making the table. -/
theorem tabulate_outcome {a : Automaton S Q} {f : Q → S → Checked Q}
    (h : a.transition = .computed f) : a.tabulate.outcome = Table.ofFunction f >>= fun table =>
      .ok (⟨a.start, a.terminal, .tabulated table⟩ : Automaton S Q) := by
  simp [tabulate, h, record, ofTable, make]

/-- Tabulating a total automaton changes how successors are found and nothing else. -/
theorem tabulate_eq_ok [LawfulIndexed S] [LawfulIndexed Q] {a : Automaton S Q} (htotal : a.Total)
    (hfits : Table.fits Q = true) (hcells : Indexed.count Q * Indexed.count S < indexLimit) :
    ∃ t, a.tabulate.outcome = .ok t ∧ t.start = a.start ∧ t.terminal = a.terminal ∧
      ∀ q s, t.step q s = a.step q s := by
  cases htransition : a.transition with
  | tabulated table =>
    refine ⟨a, ?_, rfl, rfl, fun _ _ => rfl⟩
    simp [tabulate, htransition]
  | computed f =>
    have hstep : ∀ q s, a.step q s = f q s := fun q s => by
      rw [step, htransition]
      rfl
    obtain ⟨g, rfl⟩ := exists_eq_ok fun q s => (hstep q s) ▸ htotal q s
    obtain ⟨table, htable, hget⟩ := Table.ofFunction_eq_ok (S := S) hfits g
    refine ⟨⟨a.start, a.terminal, .tabulated table⟩, ?_, rfl, rfl, fun q s => ?_⟩
    · rw [tabulate_outcome htransition, htable, ok_bind]
    · rw [hstep]
      exact hget hcells q s

end Automaton

end Automata
