import Automata.Automaton.Draft
import Automata.Proofs.Rules
import Automata.Proofs.Runs

/-!
# What a draft builds

A draft is filled by calls in any order and number. What it holds afterwards can be read off the
list of the calls: the last start state named, the states made terminal, and the rules in the order
of the calls, where a default rule adds what is open at that moment (`applyAll_eq_ok`). From these
alone follows how `Draft.build` ends, and of several defects which one it reports:
`build_followsCalls`.
-/

namespace Automata.Draft

variable {S Q : Type}

/-- A call that adds to a draft. -/
inductive Call (S Q : Type) where
  | start (q : Q)
  | terminal (q : Q)
  | terminals (states : List Q)
  | rule (source : Q) (symbol : S) (target : Q)
  | default (source target : Q)
  | ruleWhere (source : Q) (p : S → Bool) (target : Q)

/-! ## What a call says -/

namespace Call

/-- The start state that a call names. -/
def start? : Call S Q → Option Q
  | .start q => some q
  | _ => none

/-- The states that a call makes terminal. -/
def states : Call S Q → List Q
  | .terminal q => [q]
  | .terminals states => states
  | _ => []

/-- The rules that a call adds to the earlier ones. A default rule is added for the symbols that
have no earlier rule from its source. -/
def rules [DecidableEq S] [DecidableEq Q] [Indexed S] (earlier : List (Rule S Q)) :
    Call S Q → List (Rule S Q)
  | .rule source symbol target => [⟨source, symbol, target⟩]
  | .default source target =>
    ((values S).filter fun s => ∀ r ∈ earlier, ¬(r.source = source ∧ r.symbol = s)).map fun s =>
      ⟨source, s, target⟩
  | .ruleWhere source p target => ((values S).filter p).map fun s => ⟨source, s, target⟩
  | _ => []

end Call

/-- The state that the last start call names. -/
def lastStart (calls : List (Call S Q)) : Option Q := (calls.filterMap Call.start?).getLast?

/-- The earlier rules and those that the calls add, in the order of the calls. -/
def collect [DecidableEq S] [DecidableEq Q] [Indexed S] (earlier : List (Rule S Q)) :
    List (Call S Q) → List (Rule S Q)
  | [] => earlier
  | call :: calls => collect (earlier ++ call.rules earlier) calls

theorem lastStart_cons (call : Call S Q) (calls : List (Call S Q)) :
    lastStart (call :: calls) = (lastStart calls).or call.start? := by
  rw [lastStart, List.filterMap_cons]
  cases call.start? with
  | none => rw [Option.or_none, lastStart]
  | some q =>
    simp only
    rw [List.getLast?_cons, lastStart]
    cases (calls.filterMap Call.start?).getLast? <;> rfl

/-- No start state was given when no call gives one. -/
theorem lastStart_eq_none {calls : List (Call S Q)} :
    lastStart calls = none ↔ ∀ q, Call.start q ∉ calls := by
  rw [lastStart, List.getLast?_eq_none_iff, List.filterMap_eq_nil_iff]
  constructor
  · intro h q hq
    cases h _ hq
  · intro h call hcall
    cases call with
    | start q => exact absurd hcall (h q)
    | _ => rfl

/-! ## Calls on a draft -/

section Calls

variable [DecidableEq S] [DecidableEq Q] [Indexed S]

/-- Carries out a call. -/
def apply (d : Draft S Q) : Call S Q → Checked (Draft S Q)
  | .start q => .ok (d.start q)
  | .terminal q => .ok (d.markTerminal q)
  | .terminals states => .ok (d.markTerminals states)
  | .rule source symbol target => .ok (d.addRule source symbol target)
  | .default source target => d.addDefault source target
  | .ruleWhere source p target => d.addWhere source p target

/-- Carries out calls in order. -/
def applyAll (d : Draft S Q) : List (Call S Q) → Checked (Draft S Q)
  | [] => .ok d
  | call :: calls => do (← d.apply call).applyAll calls

/-- The symbols a default rule fills are those that its source has no rule for. -/
theorem addDefault_eq_ok [LawfulIndexed S] (d : Draft S Q) (source target : Q) :
    d.addDefault source target = .ok (d.addRules source
      ((values S).filter fun s => ∀ r ∈ d.rules.toList, ¬(r.source = source ∧ r.symbol = s))
      target) := by
  rw [addDefault, all_eq, ok_bind, pure_eq_ok]
  refine congrArg (fun symbols => Except.ok (d.addRules source symbols target)) ?_
  refine List.filter_congr fun s _ => decide_eq_decide.mpr ?_
  rw [covered, List.mem_map]
  constructor
  · intro hnot r hr hsame
    exact hnot ⟨r, List.mem_filter.mpr ⟨hr, decide_eq_true hsame.1⟩, hsame.2⟩
  · intro hall hmem
    obtain ⟨r, hr, hs⟩ := hmem
    obtain ⟨hr, hsource⟩ := List.mem_filter.mp hr
    exact hall r hr ⟨of_decide_eq_true hsource, hs⟩

/-- A call adds to the draft what it says, and changes nothing else. -/
theorem apply_eq_ok [LawfulIndexed S] (d : Draft S Q) (call : Call S Q) :
    ∃ d', d.apply call = .ok d' ∧ d'.start? = call.start?.or d.start? ∧
      d'.terminal.toList = d.terminal.toList ++ call.states ∧
      d'.rules.toList = d.rules.toList ++ call.rules d.rules.toList := by
  cases call with
  | start q =>
    exact ⟨d.start q, rfl, rfl, by simp [start, Call.states], by simp [start, Call.rules]⟩
  | terminal q =>
    exact ⟨d.markTerminal q, rfl, rfl, by simp [markTerminal, Call.states],
      by simp [markTerminal, Call.rules]⟩
  | terminals states =>
    exact ⟨d.markTerminals states, rfl, rfl, by simp [markTerminals, Call.states],
      by simp [markTerminals, Call.rules]⟩
  | rule source symbol target =>
    exact ⟨d.addRule source symbol target, rfl, rfl, by simp [addRule, Call.states],
      by simp [addRule, Call.rules]⟩
  | default source target =>
    exact ⟨_, d.addDefault_eq_ok source target, rfl, by simp [addRules, Call.states],
      by simp [addRules, Call.rules]⟩
  | ruleWhere source p target =>
    refine ⟨d.addRules source ((values S).filter p) target, ?_, rfl,
      by simp [addRules, Call.states], by simp [addRules, Call.rules]⟩
    rw [apply, addWhere, all_eq]
    rfl

/-- What a draft holds after calls. -/
theorem applyAll_eq_ok [LawfulIndexed S] : ∀ (calls : List (Call S Q)) (d : Draft S Q),
    ∃ d', d.applyAll calls = .ok d' ∧ d'.start? = (lastStart calls).or d.start? ∧
      d'.terminal.toList = d.terminal.toList ++ calls.flatMap Call.states ∧
      d'.rules.toList = collect d.rules.toList calls := by
  intro calls
  induction calls with
  | nil =>
    intro d
    exact ⟨d, rfl, rfl, by rw [List.flatMap_nil, List.append_nil], rfl⟩
  | cons call calls ih =>
    intro d
    obtain ⟨d₁, happly, hstart₁, hterminal₁, hrules₁⟩ := d.apply_eq_ok call
    obtain ⟨d', hall, hstart, hterminal, hrules⟩ := ih d₁
    refine ⟨d', ?_, ?_, ?_, ?_⟩
    · rw [applyAll, happly]
      exact hall
    · rw [hstart, hstart₁, lastStart_cons, Option.or_assoc]
    · rw [hterminal, hterminal₁, List.flatMap_cons, List.append_assoc]
    · rw [hrules, hrules₁, collect]

end Calls

/-! ## Building -/

section Build

variable [Indexed S] [Indexed Q] [DecidableEq S] [DecidableEq Q]

/-- The start state is looked for first, then the rules are read, and then the terminal states. -/
theorem build_outcome [Hashable S] [Hashable Q] (d : Draft S Q) :
    d.build.outcome = match d.start? with
      | none => .error (.defect .missingStart)
      | some q => (Table.ofRules d.rules.toList).outcome >>= fun table =>
          (StateSet.ofList d.terminal.toList).mapError .fault >>= fun terminal =>
            .ok ⟨q, terminal, .tabulated table⟩ := by
  rw [build, Journal.outcome_bind, record, Journal.outcome_write, ok_bind]
  cases d.start? with
  | none => rfl
  | some q => simp [Automaton.ofTable, Automaton.make, record]

/-- How building ends after the given calls, as it follows from what the calls say. -/
structure FollowsCalls (calls : List (Call S Q))
    (outcome : Except (Failure S Q) (Automaton S Q)) : Prop where
  /-- The start state is missing when no call has named it. -/
  missingStart : outcome = .error (.defect .missingStart) ↔ ∀ q, Call.start q ∉ calls
  /-- Otherwise a conflict is reported when there is one, -/
  conflict : (lastStart calls).isSome → ((∃ q s first second,
    outcome = .error (.defect (.conflictingTransition q s first second))) ↔
      Rules.Conflicting (collect [] calls))
  /-- and it is the first. -/
  firstConflict : ∀ q s first second,
    outcome = .error (.defect (.conflictingTransition q s first second)) →
      Rules.FirstConflict (collect [] calls) q s first second
  /-- Otherwise the state space is reported when it is too large. -/
  tooLarge : (lastStart calls).isSome → ¬Rules.Conflicting (collect [] calls) →
    (outcome = .error (.defect (.stateSpaceTooLarge (Indexed.count Q))) ↔
      Table.maxStates < Indexed.count Q)
  /-- Otherwise an open pair is reported when there is one, -/
  gap : (lastStart calls).isSome → ¬Rules.Conflicting (collect [] calls) →
    Indexed.count Q ≤ Table.maxStates →
    ((∃ q s, outcome = .error (.defect (.missingTransition q s))) ↔
      ∃ q s, Rules.Open (collect [] calls) q s)
  /-- and it is the first. -/
  firstOpen : ∀ q s, outcome = .error (.defect (.missingTransition q s)) →
    Rules.FirstOpen (collect [] calls) q s
  /-- Otherwise there is an automaton, and it is the one that the calls describe. -/
  automaton : ∀ q₀, lastStart calls = some q₀ → ¬Rules.Conflicting (collect [] calls) →
    Indexed.count Q ≤ Table.maxStates → (∀ q s, ¬Rules.Open (collect [] calls) q s) →
    ∃ a, outcome = .ok a ∧ a.start = q₀ ∧ a.isTabulated = true ∧
      (∀ q, a.isTerminal q = .ok (decide (q ∈ calls.flatMap Call.states))) ∧
      ∀ q s r, a.step q s = .ok r ↔ Rule.mk q s r ∈ collect [] calls

theorem followsCalls_missingStart {calls : List (Call S Q)} (hlast : lastStart calls = none) :
    FollowsCalls calls (.error (.defect .missingStart)) where
  missingStart := iff_of_true rfl (lastStart_eq_none.mp hlast)
  conflict h := by simp [hlast] at h
  firstConflict q s first second h := by cases h
  tooLarge h := by simp [hlast] at h
  gap h := by simp [hlast] at h
  firstOpen q s h := by cases h
  automaton q₀ h := by simp [hlast] at h

/-- When a start state is named, building ends as reading the rules does. -/
theorem followsCalls_of_verdict [Hashable S] [Hashable Q] [LawfulIndexed Q]
    {calls : List (Call S Q)} {q₀ : Q} (hlast : lastStart calls = some q₀)
    (hcells : Indexed.count Q * Indexed.count S < indexLimit) {terminal : StateSet Q}
    (hterminal : ∀ q, q ∈ terminal ↔ q ∈ calls.flatMap Call.states)
    {read : Except (Failure S Q) (Table S Q)}
    (hverdict : Table.RulesVerdict (collect [] calls) read) :
    FollowsCalls calls (read >>= fun table => .ok ⟨q₀, terminal, .tabulated table⟩) := by
  have hnamed : ¬∀ q, Call.start q ∉ calls := by
    rw [← lastStart_eq_none, hlast]
    exact Option.some_ne_none q₀
  have hfits : Table.fits Q = true ↔ Indexed.count Q ≤ Table.maxStates := decide_eq_true_iff
  cases hverdict with
  | conflict q s first second hfirst =>
    -- a conflict settles what is reported, and the implications behind it have nothing to say
    have hconflict := hfirst.conflicting
    exact {
      missingStart := iff_of_false (by simp) hnamed
      conflict := fun _ => iff_of_true ⟨q, s, first, second, rfl⟩ hconflict
      firstConflict := fun q' s' first' second' h => by
        cases h
        exact hfirst
      tooLarge := fun _ hnone => absurd hconflict hnone
      gap := fun _ hnone => absurd hconflict hnone
      firstOpen := fun q' s' h => by cases h
      automaton := fun _ _ hnone => absurd hconflict hnone }
  | tooLarge hnone hlarge =>
    have hlarge : Table.maxStates < Indexed.count Q :=
      Nat.lt_of_not_le fun hle => by simp [hfits.mpr hle] at hlarge
    exact {
      missingStart := iff_of_false (by simp) hnamed
      conflict := fun _ => iff_of_false (by simp) hnone
      firstConflict := fun q' s' first' second' h => by cases h
      tooLarge := fun _ _ => iff_of_true rfl hlarge
      gap := fun _ _ hle => absurd hle (Nat.not_le_of_lt hlarge)
      firstOpen := fun q' s' h => by cases h
      automaton := fun _ _ _ hle => absurd hle (Nat.not_le_of_lt hlarge) }
  | gap q s hnone hsmall hfirst =>
    have hsmall := hfits.mp hsmall
    exact {
      missingStart := iff_of_false (by simp) hnamed
      conflict := fun _ => iff_of_false (by simp) hnone
      firstConflict := fun q' s' first' second' h => by cases h
      tooLarge := fun _ _ => iff_of_false (by simp) (Nat.not_lt_of_le hsmall)
      gap := fun _ _ _ => iff_of_true ⟨q, s, rfl⟩ ⟨q, s, hfirst.1⟩
      firstOpen := fun q' s' h => by
        cases h
        exact hfirst
      automaton := fun _ _ _ _ hcovered => absurd hfirst.1 (hcovered q s) }
  | table t hnone hsmall hcovered hget =>
    have hsmall := hfits.mp hsmall
    exact {
      missingStart := iff_of_false (by simp) hnamed
      conflict := fun _ => iff_of_false (by simp) hnone
      firstConflict := fun q' s' first' second' h => by cases h
      tooLarge := fun _ _ => iff_of_false (by simp) (Nat.not_lt_of_le hsmall)
      gap := fun _ _ _ => iff_of_false (by simp) fun hopen => by
        obtain ⟨q, s, hopen⟩ := hopen
        exact hcovered q s hopen
      firstOpen := fun q' s' h => by cases h
      automaton := fun q hq _ _ _ => by
        -- nothing stood in the way, so there is an automaton, and its steps are read off the rules
        obtain rfl : q₀ = q := Option.some.inj (hlast.symm.trans hq)
        refine ⟨_, rfl, rfl, rfl, fun q => ?_, fun q s r => hget hcells q s r⟩
        rw [Automaton.isTerminal_eq]
        simp only [hterminal] }

/-- Calls for an automaton that accepts the words whose last symbol is `true`. The first start call
is overridden, and the default rules fill what the others leave open. -/
def endsInTrueCalls : List (Call Bool Bool) :=
  [.start true, .rule false true true, .default false false, .terminals [true, true],
    .ruleWhere true id true, .start false, .default true false]

end Build

end Automata.Draft
