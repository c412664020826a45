import Automata.Proofs.Drafts
import Automata.Proofs.RuleSets

/-!
# Default rules

What a default rule adds to a draft depends on all that was said before: it is one rule for each
symbol for which its source has none so far. So it never contradicts anything, and it changes
nothing where something is known; its source is complete from then on, and another default rule for
the same source comes too late, however much is said in between. All this is read off the rules that
it adds (`mem_rules_default`).

Two default rules for different sources do not see each other's rules. Called one after the other in
either order they leave the same rules, though in a different order, and whatever is called later
adds the same rules in both cases (`collect_congr`). The order of the rules shows only in which
conflict comes first, and no default rule takes part in a first conflict (`FirstConflict.exchange`).
So the two orders build the same automaton or find the same defect, with the same log.

> `default_rules_complete`: what one default rule does, that two of them can be exchanged, and that
> one for every state, in any order, completes a draft without conflict to an automaton, which moves
> by the rules of the draft where there are any and to the default targets elsewhere.
-/

namespace Automata

theorem append_eq_append_cons {α : Type} {before after earlier later : List α} {a : α}
    (h : before ++ after = earlier ++ a :: later) :
    (∃ between, before = earlier ++ a :: between ∧ later = between ++ after) ∨
      ∃ between, earlier = before ++ between ∧ after = between ++ a :: later := by
  rcases List.append_eq_append_iff.mp h with hsplit | ⟨between, hbefore, hafter⟩
  · exact Or.inr hsplit
  · rcases List.cons_eq_append_iff.mp hafter with ⟨rfl, rfl⟩ | ⟨between, rfl, hlater⟩
    · exact Or.inr ⟨[], by rw [hbefore, List.append_nil, List.append_nil], rfl⟩
    · exact Or.inl ⟨between, hbefore, hlater⟩

/-! ## Rules that fill gaps -/

namespace Rules

variable {S Q : Type}

theorem open_iff {rules : List (Rule S Q)} {q : Q} {s : S} :
    Open rules q s ↔ ∀ r ∈ rules, ¬(r.source = q ∧ r.symbol = s) := by
  constructor
  · rintro hopen ⟨q', s', r⟩ hr ⟨rfl, rfl⟩
    exact hopen r hr
  · intro hnone r hr
    exact hnone _ hr ⟨rfl, rfl⟩

/-- The rules are for pairs that have none in the earlier ones, and do not conflict. -/
structure FillGaps (earlier rules : List (Rule S Q)) : Prop where
  isOpen : ∀ r ∈ rules, Open earlier r.source r.symbol
  not_conflicting : ¬Conflicting rules

variable {earlier rules : List (Rule S Q)}

/-- Filling gaps changes nothing for the pairs that have a rule. -/
theorem FillGaps.mem_iff (h : FillGaps earlier rules) {q r : Q} {s : S}
    (hrule : ¬Open earlier q s) : Rule.mk q s r ∈ earlier ++ rules ↔ Rule.mk q s r ∈ earlier := by
  rw [List.mem_append]
  exact or_iff_left fun hmem => hrule (h.isOpen _ hmem)

/-- Filling gaps does not bring about a conflict. -/
theorem FillGaps.not_conflicting_append (h : FillGaps earlier rules)
    (hnone : ¬Conflicting earlier) : ¬Conflicting (earlier ++ rules) := by
  rintro ⟨q, s, r, r', hr, hr', hne⟩
  rcases List.mem_append.mp hr with hmem | hmem <;> rcases List.mem_append.mp hr' with hmem' | hmem'
  · exact hnone ⟨q, s, r, r', hmem, hmem', hne⟩
  · exact h.isOpen _ hmem' r hmem
  · exact h.isOpen _ hmem r' hmem'
  · exact h.not_conflicting ⟨q, s, r, r', hmem, hmem', hne⟩

/-- Gaps can be filled in two goes. -/
theorem FillGaps.append {rules' : List (Rule S Q)} (h : FillGaps earlier rules)
    (h' : FillGaps (earlier ++ rules) rules') : FillGaps earlier (rules ++ rules') where
  isOpen r hr := by
    rcases List.mem_append.mp hr with hr | hr
    · exact h.isOpen r hr
    · exact fun target hmem => h'.isOpen r hr target (List.mem_append_left _ hmem)
  not_conflicting := by
    refine FillGaps.not_conflicting_append ⟨fun r hr target hmem => ?_, h'.not_conflicting⟩
      h.not_conflicting
    exact h'.isOpen r hr target (List.mem_append_right _ hmem)

/-- Rules that fill gaps can come in any order, whatever comes later: this does not change the first
conflict. -/
theorem FirstConflict.exchange {rules' later : List (Rule S Q)} (hfill : FillGaps earlier rules)
    (hsame : ∀ r, r ∈ rules ↔ r ∈ rules') {q first second : Q} {s : S}
    (h : FirstConflict (earlier ++ (rules ++ later)) q s first second) :
    FirstConflict (earlier ++ (rules' ++ later)) q s first second := by
  obtain ⟨before, after, hrules, hnone, hfirst, hne⟩ := h
  rcases append_eq_append_cons hrules with ⟨between, rfl, _⟩ | ⟨between, rfl, hrest⟩
  · -- the conflict is met before the gaps are filled
    exact ⟨before, between ++ (rules' ++ later), by simp, hnone, hfirst, hne⟩
  · rcases append_eq_append_cons hrest with ⟨others, rfl, _⟩ | ⟨between', rfl, rfl⟩
    · -- it cannot be met while the gaps are filled
      have hmem : Rule.mk q s second ∈ between ++ Rule.mk q s second :: others :=
        List.mem_append_right _ (List.mem_cons_self ..)
      rcases List.mem_append.mp hfirst with hfirst | hfirst
      · exact absurd hfirst (hfill.isOpen _ hmem first)
      · exact absurd ⟨q, s, first, second, List.mem_append_left _ hfirst, hmem, hne⟩
          hfill.not_conflicting
    · -- all gaps are filled by then, in either order
      have hmembers : ∀ r, r ∈ earlier ++ (rules ++ between') ↔
          r ∈ earlier ++ (rules' ++ between') := fun r => by simp only [List.mem_append, hsame]
      refine ⟨earlier ++ (rules' ++ between'), after, by simp, ?_, (hmembers _).mp hfirst, hne⟩
      rwa [← conflicting_congr hmembers]

end Rules

/-! ## Reading rules with exchanged parts -/

namespace Table

open Rules

variable {S Q : Type} [Indexed S] [Indexed Q] [DecidableEq S] [DecidableEq Q] [Hashable S]
  [Hashable Q] [LawfulIndexed S] [LawfulIndexed Q]

/-- Lists with the same members and the same first conflict are read with the same end. -/
theorem ofRules_outcome_congr {rules rules' : List (Rule S Q)} (hsame : ∀ r, r ∈ rules ↔ r ∈ rules')
    (hfirst : ∀ q s first second, FirstConflict rules q s first second →
      FirstConflict rules' q s first second) :
    (ofRules rules).outcome = (ofRules rules').outcome := by
  have hverdict := ofRules_verdict rules
  have halike := endAlike_of_same hsame
  generalize (ofRules rules).outcome = ending at hverdict halike ⊢
  cases hverdict with
  | conflict q s first second h => rw [ofRules_of_firstConflict (hfirst q s first second h)]
  | tooLarge | gap | table =>
    generalize (ofRules rules').outcome = ending' at halike ⊢
    cases halike
    rfl

/-- Rules that fill gaps can be read in any order. -/
theorem ofRules_exchange {earlier rules rules' later : List (Rule S Q)}
    (hfill : FillGaps earlier rules) (hsame : ∀ r, r ∈ rules ↔ r ∈ rules') :
    ofRules (earlier ++ (rules ++ later)) = ofRules (earlier ++ (rules' ++ later)) := by
  have hmembers : ∀ r, r ∈ earlier ++ (rules ++ later) ↔ r ∈ earlier ++ (rules' ++ later) :=
    fun r => by simp only [List.mem_append, hsame]
  have houtcome := ofRules_outcome_congr hmembers fun q s first second =>
    FirstConflict.exchange hfill hsame
  exact Journal.ext (entries_ofRules_congr hmembers) houtcome

end Table

namespace Draft

variable {S Q : Type}

/-! ## The rules that calls add -/

section Calls

variable [DecidableEq S] [DecidableEq Q] [Indexed S]

/-- What a default rule adds depends only on which pairs of its source are open. -/
theorem rules_default_congr {earlier earlier' : List (Rule S Q)} {source : Q} (target : Q)
    (h : ∀ s, Rules.Open earlier source s ↔ Rules.Open earlier' source s) :
    (Call.default source target).rules earlier = (Call.default source target).rules earlier' := by
  rw [Call.rules, Call.rules]
  refine congrArg _ (List.filter_congr fun s _ => decide_eq_decide.mpr ?_)
  rw [← Rules.open_iff, ← Rules.open_iff, h]

/-- What a call adds depends only on the set of the earlier rules. -/
theorem rules_congr {earlier earlier' : List (Rule S Q)} (hsame : ∀ r, r ∈ earlier ↔ r ∈ earlier')
    (call : Call S Q) : call.rules earlier = call.rules earlier' := by
  cases call with
  | default source target => exact rules_default_congr target (Rules.open_congr hsame source)
  | start | terminal | terminals | rule | ruleWhere => rfl

/-- After the same rules, in whatever order, calls add the same rules in the same order. -/
theorem collect_congr : ∀ (calls : List (Call S Q)) {earlier earlier' : List (Rule S Q)},
    (∀ r, r ∈ earlier ↔ r ∈ earlier') →
      ∃ added, collect earlier calls = earlier ++ added ∧
        collect earlier' calls = earlier' ++ added := by
  intro calls
  induction calls with
  | nil =>
    intro earlier earlier' _
    exact ⟨[], (List.append_nil _).symm, (List.append_nil _).symm⟩
  | cons call calls ih =>
    intro earlier earlier' hsame
    have hnext : ∀ r, r ∈ earlier ++ call.rules earlier ↔ r ∈ earlier' ++ call.rules earlier :=
      fun r => by simp only [List.mem_append, hsame]
    obtain ⟨added, hadded, hadded'⟩ := ih hnext
    refine ⟨call.rules earlier ++ added, ?_, ?_⟩
    · rw [collect, hadded, List.append_assoc]
    · rw [collect, ← rules_congr hsame call, hadded', List.append_assoc]

/-- Calls keep the rules that are there. -/
theorem subset_collect : ∀ (calls : List (Call S Q)) (earlier : List (Rule S Q)),
    earlier ⊆ collect earlier calls := by
  intro calls
  induction calls with
  | nil => exact fun _ => List.Subset.refl _
  | cons call calls ih => exact fun earlier => List.Subset.trans (List.subset_append_left ..) (ih _)

variable [LawfulIndexed S] {earlier : List (Rule S Q)} {source target : Q}

/-- A default rule is one rule for each symbol for which its source has none. -/
theorem mem_rules_default {q r : Q} {s : S} :
    Rule.mk q s r ∈ (Call.default source target).rules earlier ↔
      q = source ∧ r = target ∧ Rules.Open earlier q s := by
  rw [Call.rules, List.mem_map]
  constructor
  · rintro ⟨s', hs', heq⟩
    obtain ⟨rfl, rfl, rfl⟩ := Rule.mk.inj heq
    exact ⟨rfl, rfl, Rules.open_iff.mpr (of_decide_eq_true (List.mem_filter.mp hs').2)⟩
  · rintro ⟨rfl, rfl, hopen⟩
    exact ⟨s, List.mem_filter.mpr ⟨mem_values s, decide_eq_true (Rules.open_iff.mp hopen)⟩, rfl⟩

theorem fillGaps_default :
    Rules.FillGaps earlier ((Call.default source target).rules earlier) where
  isOpen r hr := (mem_rules_default.mp hr).2.2
  not_conflicting := by
    rintro ⟨q, s, r, r', hr, hr', hne⟩
    exact hne ((mem_rules_default.mp hr).2.1.trans (mem_rules_default.mp hr').2.1.symm)

/-- The pairs that are open after a default rule are those that were open for other sources. -/
theorem open_append_default {q : Q} {s : S} :
    Rules.Open (earlier ++ (Call.default source target).rules earlier) q s ↔
      Rules.Open earlier q s ∧ q ≠ source := by
  constructor
  · intro hopen
    have hearlier : Rules.Open earlier q s := fun r hr => hopen r (List.mem_append_left _ hr)
    refine ⟨hearlier, fun heq => hopen target (List.mem_append_right _ ?_)⟩
    exact mem_rules_default.mpr ⟨heq, rfl, hearlier⟩
  · intro h r hr
    rcases List.mem_append.mp hr with hr | hr
    · exact h.1 r hr
    · exact h.2 (mem_rules_default.mp hr).1

/-- A default rule adds its rules to the draft, and changes nothing else. -/
theorem addDefault_spec (d : Draft S Q) (source target : Q) :
    ∃ d', d.addDefault source target = .ok d' ∧ d'.start? = d.start? ∧ d'.terminal = d.terminal ∧
      d'.rules.toList =
        d.rules.toList ++ (Call.default source target).rules d.rules.toList :=
  ⟨_, d.addDefault_eq_ok source target, rfl, rfl, by simp [addRules, Call.rules]⟩

/-- A default rule for a source that is complete adds nothing. -/
theorem addDefault_of_covered {d : Draft S Q} {source : Q}
    (hcovered : ∀ s, ¬Rules.Open d.rules.toList source s) (target : Q) :
    d.addDefault source target = .ok d := by
  have hnone : (values S).filter
      (fun s => ∀ r ∈ d.rules.toList, ¬(r.source = source ∧ r.symbol = s)) = [] := by
    refine List.filter_eq_nil_iff.mpr fun s _ hs => hcovered s ?_
    exact Rules.open_iff.mpr (of_decide_eq_true hs)
  rw [addDefault_eq_ok, hnone, addRules]
  simp

/-! ## One default rule -/

/-- The second draft is the first with one default rule added. -/
structure FillsIn (d d' : Draft S Q) (source target : Q) : Prop where
  start_eq : d'.start? = d.start?
  terminal_eq : d'.terminal = d.terminal
  /-- The rules that are added are those to the target for the open pairs of the source. -/
  adds : ∀ q s r, Rule.mk q s r ∈ d'.rules.toList ↔
    Rule.mk q s r ∈ d.rules.toList ∨ q = source ∧ r = target ∧ Rules.Open d.rules.toList q s
  /-- They bring about no conflict, -/
  not_conflicting : ¬Rules.Conflicting d.rules.toList → ¬Rules.Conflicting d'.rules.toList
  /-- and say nothing new where something was known. -/
  keeps : ∀ q s, ¬Rules.Open d.rules.toList q s →
    ∀ r, Rule.mk q s r ∈ d'.rules.toList ↔ Rule.mk q s r ∈ d.rules.toList
  /-- The source is complete, -/
  covers : ∀ s, ¬Rules.Open d'.rules.toList source s
  /-- so another default rule for it changes nothing, at once or after any calls. -/
  again : ∀ later d'' target', d'.applyAll later = .ok d'' →
    d''.addDefault source target' = .ok d''

theorem addDefault_fillsIn (d : Draft S Q) (source target : Q) :
    ∃ d', d.addDefault source target = .ok d' ∧ FillsIn d d' source target := by
  obtain ⟨d', hadd, hstart, hterminal, hrules⟩ := d.addDefault_spec source target
  have hfill : Rules.FillGaps d.rules.toList ((Call.default source target).rules d.rules.toList) :=
    fillGaps_default
  have hcovers : ∀ s, ¬Rules.Open d'.rules.toList source s := fun s hopen => by
    rw [hrules, open_append_default] at hopen
    exact hopen.2 rfl
  refine ⟨d', hadd, hstart, hterminal, ?_, ?_, ?_, hcovers, ?_⟩
  · intro q s r
    rw [hrules, List.mem_append, mem_rules_default]
  · rw [hrules]
    exact hfill.not_conflicting_append
  · intro q s hrule r
    rw [hrules]
    exact hfill.mem_iff hrule
  · intro later d'' target' hlater
    obtain ⟨e, he, _, _, hcollect⟩ := applyAll_eq_ok later d'
    obtain rfl : e = d'' := Except.ok.inj (he.symm.trans hlater)
    refine addDefault_of_covered (fun s hopen => hcovers s fun r hr => hopen r ?_) target'
    rw [hcollect]
    exact subset_collect later _ hr

/-! ## Default rules for several sources -/

omit [DecidableEq S] [DecidableEq Q] [Indexed S] [LawfulIndexed S] in
theorem lastStart_defaults (target : Q → Q) (order : List Q) :
    lastStart (order.map fun p => (.default p (target p) : Call S Q)) = none := by
  refine lastStart_eq_none.mpr fun q hq => ?_
  obtain ⟨_, _, heq⟩ := List.mem_map.mp hq
  cases heq

omit [DecidableEq S] [DecidableEq Q] [Indexed S] [LawfulIndexed S] in
theorem states_defaults (target : Q → Q) (order : List Q) :
    (order.map fun p => (.default p (target p) : Call S Q)).flatMap Call.states = [] := by
  rw [List.flatMap_map]
  exact List.flatMap_eq_nil_iff.mpr fun _ _ => rfl

/-- Default rules for several sources add to each of them what one would add to it alone. -/
theorem mem_collect_defaults (target : Q → Q) {q r : Q} {s : S} :
    ∀ (order : List Q) (earlier : List (Rule S Q)),
      Rule.mk q s r ∈ collect earlier (order.map fun p => .default p (target p)) ↔
        Rule.mk q s r ∈ earlier ∨ q ∈ order ∧ r = target q ∧ Rules.Open earlier q s := by
  intro order
  induction order with
  | nil =>
    intro earlier
    rw [List.map_nil, collect]
    simp
  | cons p order ih =>
    intro earlier
    rw [List.map_cons, collect, ih, open_append_default, List.mem_append, mem_rules_default,
      List.mem_cons]
    by_cases hq : q = p
    · subst hq
      simp
    · simp [hq]

/-- When the sources are all states, this makes the rules a total function. -/
theorem total_collect_defaults {earlier : List (Rule S Q)} (hnone : ¬Rules.Conflicting earlier)
    (target : Q → Q) {order : List Q} (horder : ∀ q, q ∈ order) :
    Rules.Total (collect earlier (order.map fun p => .default p (target p))) := by
  intro q s
  simp only [mem_collect_defaults, horder, true_and]
  by_cases hopen : Rules.Open earlier q s
  · refine ⟨target q, Or.inr ⟨rfl, hopen⟩, ?_⟩
    rintro r (hr | ⟨rfl, _⟩)
    · exact absurd hr (hopen r)
    · rfl
  · obtain ⟨r, hr⟩ := Classical.not_forall_not.mp hopen
    refine ⟨r, Or.inl hr, ?_⟩
    rintro r' (hr' | ⟨_, hopen'⟩)
    · exact Classical.byContradiction fun hne => hnone ⟨q, s, r', r, hr', hr, hne⟩
    · exact absurd hopen' hopen

/-- Two default rules for different sources add the same two groups of rules in either order, and
later calls the same rules after them. -/
theorem collect_exchange_defaults (earlier : List (Rule S Q)) {source source' : Q}
    (hne : source ≠ source') (target target' : Q) (later : List (Call S Q)) :
    ∃ first second added, Rules.FillGaps earlier (first ++ second) ∧
      collect earlier (.default source target :: .default source' target' :: later) =
        earlier ++ (first ++ second ++ added) ∧
      collect earlier (.default source' target' :: .default source target :: later) =
        earlier ++ (second ++ first ++ added) := by
  -- neither of the two sees what the other adds
  have hsecond : (Call.default source' target').rules
      (earlier ++ (Call.default source target).rules earlier) =
        (Call.default source' target').rules earlier :=
    rules_default_congr target' fun s => open_append_default.trans (and_iff_left hne.symm)
  have hfirst : (Call.default source target).rules
      (earlier ++ (Call.default source' target').rules earlier) =
        (Call.default source target).rules earlier :=
    rules_default_congr target fun s => open_append_default.trans (and_iff_left hne)
  have hfill : Rules.FillGaps earlier ((Call.default source target).rules earlier ++
      (Call.default source' target').rules earlier) := by
    rw [← hsecond]
    exact fillGaps_default.append fillGaps_default
  simp only [collect, hfirst, hsecond, List.append_assoc]
  generalize (Call.default source target).rules earlier = first at hfill ⊢
  generalize (Call.default source' target').rules earlier = second at hfill ⊢
  -- so what comes later finds the same set of rules
  have hsame : ∀ r, r ∈ earlier ++ (first ++ second) ↔ r ∈ earlier ++ (second ++ first) :=
    fun r => by simp only [List.mem_append, or_comm]
  obtain ⟨added, hadded, hadded'⟩ := collect_congr later hsame
  exact ⟨first, second, added, hfill, by rw [hadded]; simp, by rw [hadded']; simp⟩

end Calls

/-! ## Building -/

section Build

variable [Indexed S] [Indexed Q] [DecidableEq S] [DecidableEq Q] [Hashable S] [Hashable Q]

/-- Building depends on the order of the rules only as far as reading them does. -/
theorem build_congr {d d' : Draft S Q} (hstart : d.start? = d'.start?)
    (hterminal : d.terminal.toList = d'.terminal.toList)
    (hlength : d.rules.toList.length = d'.rules.toList.length)
    (hread : Table.ofRules d.rules.toList = Table.ofRules d'.rules.toList) :
    d.build = d'.build := by
  have hsize : d.rules.size = d'.rules.size := by
    rwa [Array.length_toList, Array.length_toList] at hlength
  rw [build, build, hstart, Array.toList_inj.mp hterminal, hsize, hread]

variable [LawfulIndexed S] [LawfulIndexed Q]

/-- Default rules for different sources can be exchanged. -/
theorem build_exchange_defaults (d : Draft S Q) {source source' : Q} (hne : source ≠ source')
    (target target' : Q) (later : List (Call S Q)) :
    ∃ d₁ d₂, d.applyAll (.default source target :: .default source' target' :: later) = .ok d₁ ∧
      d.applyAll (.default source' target' :: .default source target :: later) = .ok d₂ ∧
      d₁.build = d₂.build := by
  obtain ⟨d₁, hd₁, hstart₁, hterminal₁, hrules₁⟩ :=
    applyAll_eq_ok (.default source target :: .default source' target' :: later) d
  obtain ⟨d₂, hd₂, hstart₂, hterminal₂, hrules₂⟩ :=
    applyAll_eq_ok (.default source' target' :: .default source target :: later) d
  obtain ⟨first, second, added, hfill, hcollect₁, hcollect₂⟩ :=
    collect_exchange_defaults d.rules.toList hne target target' later
  rw [hcollect₁] at hrules₁
  rw [hcollect₂] at hrules₂
  refine ⟨d₁, d₂, hd₁, hd₂, build_congr ?_ ?_ ?_ ?_⟩
  · rw [hstart₁, hstart₂, lastStart, lastStart]
    rfl
  · rw [hterminal₁, hterminal₂]
    rfl
  · rw [hrules₁, hrules₂]
    simp only [List.length_append]
    omega
  · rw [hrules₁, hrules₂]
    exact Table.ofRules_exchange hfill fun r => by rw [List.mem_append, List.mem_append, or_comm]

/-- The automaton is what the draft describes together with the default targets. -/
structure Completes (d : Draft S Q) (target : Q → Q) (a : Automaton S Q) : Prop where
  start_eq : d.start? = some a.start
  isTabulated : a.isTabulated = true
  isTerminal_eq : ∀ q, a.isTerminal q = .ok (decide (q ∈ d.terminal.toList))
  /-- It moves by the rules of the draft where there are any, -/
  known : ∀ q s r, Rule.mk q s r ∈ d.rules.toList → a.step q s = .ok r
  /-- and to the default target of the state elsewhere. -/
  filled : ∀ q s, Rules.Open d.rules.toList q s → a.step q s = .ok (target q)

theorem build_completes {d : Draft S Q} {q₀ : Q} (hstart : d.start? = some q₀)
    (hnone : ¬Rules.Conflicting d.rules.toList) (hfits : Indexed.count Q ≤ Table.maxStates)
    (target : Q → Q) {order : List Q} (horder : ∀ q, q ∈ order) :
    ∃ d' a, d.applyAll (order.map fun q => .default q (target q)) = .ok d' ∧
      d'.build.outcome = .ok a ∧
      (Indexed.count Q * Indexed.count S < indexLimit → Completes d target a) := by
  obtain ⟨d', hall, hstart', hterminal', hrules'⟩ :=
    applyAll_eq_ok (order.map fun q => .default q (target q)) d
  rw [lastStart_defaults, Option.none_or, hstart] at hstart'
  rw [states_defaults, List.append_nil] at hterminal'
  obtain ⟨f, hf⟩ := (total_collect_defaults hnone target horder).exists_function
  have hread : (Table.ofRules d'.rules.toList).outcome = .ok (Table.graph f) := by
    rw [hrules']
    exact Table.ofRules_eq_ok hf (decide_eq_true hfits)
  obtain ⟨terminal, hterminal, hmem⟩ := StateSet.ofList_eq_ok d'.terminal.toList
  refine ⟨d', ⟨q₀, terminal, .tabulated (Table.graph f)⟩, hall, ?_, fun hcells => ?_⟩
  · rw [build_outcome, hstart', hread, hterminal]
    rfl
  · have hstep : ∀ q s, (Table.graph f).get q s = .ok (f q s) :=
      Table.get_graph (decide_eq_true hfits) hcells f
    refine ⟨hstart, rfl, fun q => ?_, fun q s r hr => ?_, fun q s hopen => ?_⟩
    · rw [Automaton.isTerminal_eq]
      simp only [hmem, hterminal']
    · rw [(hf q s r).mp ((mem_collect_defaults target order _).mpr (Or.inl hr))]
      exact hstep q s
    · rw [(hf q s (target q)).mp
        ((mem_collect_defaults target order _).mpr (Or.inr ⟨horder q, rfl, hopen⟩))]
      exact hstep q s

/-- **Default rules.** One default rule fills the gaps of its source and does nothing else. Two for
different sources can be exchanged wherever they stand in the calls. One for every state, in any
order, completes a draft that has a start state and no conflict. -/
theorem default_rules_complete (d : Draft S Q) :
    (∀ source target, ∃ d', d.addDefault source target = .ok d' ∧ FillsIn d d' source target) ∧
    (∀ source source' target target' later, source ≠ source' →
      ∃ d₁ d₂, d.applyAll (.default source target :: .default source' target' :: later) = .ok d₁ ∧
        d.applyAll (.default source' target' :: .default source target :: later) = .ok d₂ ∧
        d₁.build = d₂.build) ∧
    ∀ q₀ (target : Q → Q) (order : List Q), d.start? = some q₀ → ¬Rules.Conflicting d.rules.toList →
      Indexed.count Q ≤ Table.maxStates → (∀ q, q ∈ order) →
      ∃ d' a, d.applyAll (order.map fun q => .default q (target q)) = .ok d' ∧
        d'.build.outcome = .ok a ∧
        (Indexed.count Q * Indexed.count S < indexLimit → Completes d target a) :=
  ⟨addDefault_fillsIn d,
    fun _ _ target target' later hne => build_exchange_defaults d hne target target' later,
    fun _ target _ hstart hnone hfits horder => build_completes hstart hnone hfits target horder⟩

/-- A draft that says where `false` moves on `true`, and nothing else about moves. -/
def oneMove : Draft Bool Bool := ((empty.start false).addRule false true true).markTerminal true

/-- It is completed by default rules that negate the state. -/
theorem default_rules_complete_oneMove :
    oneMove.start? = some false ∧ ¬Rules.Conflicting oneMove.rules.toList ∧
    Indexed.count Bool ≤ Table.maxStates ∧ (∀ q, q ∈ [true, false]) ∧ true ≠ false ∧
    Indexed.count Bool * Indexed.count Bool < indexLimit ∧
    ∃ d d' a, oneMove.applyAll [.default true false, .default false true] = .ok d ∧
      oneMove.applyAll [.default false true, .default true false] = .ok d' ∧ d.build = d'.build ∧
      d.build.outcome = .ok a ∧ a.start = false ∧ (∀ q, a.isTerminal q = .ok q) ∧
      a.step false true = .ok true ∧ a.step false false = .ok true ∧
      ∀ s, a.step true s = .ok false := by
  have hrules : oneMove.rules.toList = [⟨false, true, true⟩] := rfl
  have hnone : ¬Rules.Conflicting oneMove.rules.toList := by
    rintro ⟨q, s, r, r', hr, hr', hne⟩
    rw [hrules, List.mem_singleton] at hr hr'
    exact hne (Rule.mk.inj (hr.trans hr'.symm)).2.2
  have hopen : ∀ q s, Rules.Open oneMove.rules.toList q s ↔ ¬(q = false ∧ s = true) := by
    intro q s
    rw [Rules.open_iff, hrules]
    revert q s
    decide
  have horder : ∀ q, q ∈ [true, false] := by decide
  have hcells : Indexed.count Bool * Indexed.count Bool < indexLimit := by decide
  obtain ⟨_, hexchange, hcomplete⟩ := default_rules_complete oneMove
  obtain ⟨d, d', hd, hd', hbuild⟩ := hexchange true false false true [] (by decide)
  obtain ⟨e, a, he, ha, hcompletes⟩ :=
    hcomplete false not [true, false] rfl hnone (by decide) horder
  obtain rfl : d = e := Except.ok.inj (hd.symm.trans he)
  have hcompletes := hcompletes hcells
  refine ⟨rfl, hnone, by decide, horder, by decide, hcells, d, d', a, hd, hd', hbuild, ha, ?_⟩
  refine ⟨(Option.some.inj hcompletes.start_eq).symm, fun q => ?_, ?_, ?_, fun s => ?_⟩
  · rw [hcompletes.isTerminal_eq]
    revert q
    decide
  · exact hcompletes.known false true true (by decide)
  · exact hcompletes.filled false false ((hopen _ _).mpr (by decide))
  · exact hcompletes.filled true s ((hopen _ _).mpr (by simp))

end Build

end Draft

end Automata
