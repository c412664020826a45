import Mathlib.Data.Finset.Card
import Automata.Proofs.Rules

/-!
# Rules as a set

A table is read from a list of rules, but neither the order of the list nor its repetitions matter.
What decides how the reading ends (`Rules.Conflicting`, `Rules.FirstOpen`) is a question about the
members of the list, and the map that is built on the way has one entry for each rule that is said
at least once (`RuleMap.Reads.size_eq`). Only which of several conflicts is met first depends on the
order; that there is one does not, and it is reported before anything else. So two lists with the
same members are read alike, and the table is read exactly when the rules are a total function:
`ofRules_readsSet`.
-/

namespace Automata

/-! ## What lists with the same members share -/

namespace Rules

variable {S Q : Type} {rules rules' : List (Rule S Q)}

/-- The rules are a total function: every pair has a rule, and its rules all give it the same
successor. -/
def Total (rules : List (Rule S Q)) : Prop := ∀ q s, ∃! r, Rule.mk q s r ∈ rules

/-- Whether rules conflict depends on which rules there are, -/
theorem conflicting_congr (hsame : ∀ r, r ∈ rules ↔ r ∈ rules') :
    Conflicting rules ↔ Conflicting rules' := by
  simp only [Conflicting, hsame]

/-- and so does which pairs are open. -/
theorem open_congr (hsame : ∀ r, r ∈ rules ↔ r ∈ rules') (q : Q) (s : S) :
    Open rules q s ↔ Open rules' q s := by
  simp only [Open, hsame]

/-- Rules are a total function when they neither conflict nor leave a pair open. -/
theorem total_iff : Total rules ↔ ¬Conflicting rules ∧ ∀ q s, ¬Open rules q s := by
  constructor
  · intro htotal
    refine ⟨fun hconflict => ?_, fun q s hopen => ?_⟩
    · obtain ⟨q, s, r, r', hr, hr', hne⟩ := hconflict
      exact hne ((htotal q s).unique hr hr')
    · obtain ⟨r, hr, _⟩ := htotal q s
      exact hopen r hr
  · intro h q s
    obtain ⟨hnone, hcovered⟩ := h
    obtain ⟨r, hr⟩ := Classical.not_forall_not.mp (hcovered q s)
    refine ⟨r, hr, fun r' hr' => ?_⟩
    exact Classical.byContradiction fun hne => hnone ⟨q, s, r', r, hr', hr, hne⟩

/-- The rules before the first that conflicts with an earlier one reach at least as far as any
beginning of the list without a conflict. -/
theorem FirstConflict.length_le {q first second : Q} {s : S}
    {earlier later beginning rest : List (Rule S Q)}
    (hrules : rules = earlier ++ Rule.mk q s second :: later) (hfirst : Rule.mk q s first ∈ earlier)
    (hne : first ≠ second) (hbeginning : rules = beginning ++ rest)
    (hnone : ¬Conflicting beginning) : beginning.length ≤ earlier.length := by
  refine Nat.le_of_not_lt fun hlt => hnone ?_
  have hconflict : earlier ++ [Rule.mk q s second] <+: rules :=
    ⟨later, by rw [hrules, List.append_assoc]; rfl⟩
  have hfar : earlier ++ [Rule.mk q s second] <+: beginning := by
    refine List.prefix_of_prefix_length_le hconflict ⟨rest, hbeginning.symm⟩ ?_
    rwa [List.length_append]
  exact ⟨q, s, first, second, hfar.subset (List.mem_append_left _ hfirst),
    hfar.subset (List.mem_append_right _ (List.mem_singleton_self _)), hne⟩

/-- There is at most one first conflict. -/
theorem FirstConflict.unique {q q' first first' second second' : Q} {s s' : S}
    (h : FirstConflict rules q s first second) (h' : FirstConflict rules q' s' first' second') :
    q = q' ∧ s = s' ∧ first = first' ∧ second = second' := by
  obtain ⟨earlier, later, hrules, hnone, hfirst, hne⟩ := h
  obtain ⟨earlier', later', hrules', hnone', hfirst', hne'⟩ := h'
  have hlength : earlier.length = earlier'.length :=
    Nat.le_antisymm (length_le hrules' hfirst' hne' hrules hnone)
      (length_le hrules hfirst hne hrules' hnone')
  obtain ⟨rfl, hrest⟩ := List.append_inj (hrules.symm.trans hrules') hlength
  obtain ⟨rfl, rfl, rfl⟩ := Rule.mk.inj (List.cons.inj hrest).1
  refine ⟨rfl, rfl, ?_, rfl⟩
  exact Classical.byContradiction fun hdiffer =>
    hnone ⟨q, s, first, first', hfirst, hfirst', hdiffer⟩

/-- Rules that settle every pair, and none twice, are those of a function. -/
theorem Total.exists_function (h : Total rules) :
    ∃ f : Q → S → Q, ∀ q s r, Rule.mk q s r ∈ rules ↔ r = f q s := by
  choose f hf hunique using h
  refine ⟨f, fun q s r => ⟨hunique q s r, fun hr => ?_⟩⟩
  rw [hr]
  exact hf q s

section Order

variable [Indexed S] [Indexed Q]

/-- The first open pair is the first of the state space and not of the list. -/
theorem FirstOpen.congr (hsame : ∀ r, r ∈ rules ↔ r ∈ rules') {q : Q} {s : S}
    (h : FirstOpen rules q s) : FirstOpen rules' q s := by
  refine ⟨(open_congr hsame q s).mp h.1, fun q' s' hopen => ?_⟩
  exact h.2 q' s' ((open_congr hsame q' s').mpr hopen)

/-- There is at most one first open pair. -/
theorem FirstOpen.unique [LawfulIndexed S] [LawfulIndexed Q] {q q' : Q} {s s' : S}
    (h : FirstOpen rules q s) (h' : FirstOpen rules q' s') : q = q' ∧ s = s' := by
  rcases h.2 q' s' h'.1 with hlt | ⟨rfl, hle⟩
  · rcases h'.2 q s h.1 with hlt' | ⟨rfl, _⟩
    · omega
    · exact absurd hlt (Nat.lt_irrefl _)
  · rcases h'.2 q s h.1 with hlt' | ⟨_, hle'⟩
    · exact absurd hlt' (Nat.lt_irrefl _)
    · exact ⟨rfl, number_inj.mp (Nat.le_antisymm hle hle')⟩

end Order

end Rules

/-! ## How many rules a map stands for -/

namespace RuleMap

variable {S Q : Type} [DecidableEq S] [DecidableEq Q] [Hashable S] [Hashable Q]

/-- The entries of a map as rules. -/
def rules (successors : RuleMap S Q) : List (Rule S Q) :=
  successors.toList.map fun entry => ⟨entry.1.1, entry.1.2, entry.2⟩

theorem nodup_rules (successors : RuleMap S Q) : successors.rules.Nodup := by
  -- the entries have different keys, and the key of a rule is its pair
  refine List.pairwise_map.mpr (Std.HashMap.distinct_keys_toList.imp fun hne heq => ?_)
  obtain ⟨hq, hs, _⟩ := Rule.mk.inj heq
  exact ne_of_beq_false hne (Prod.ext hq hs)

/-- The rules of a map are its entries. -/
theorem mem_rules {successors : RuleMap S Q} {r : Rule S Q} :
    r ∈ successors.rules ↔ successors[(r.source, r.symbol)]? = some r.target := by
  rw [← Std.HashMap.mem_toList_iff_getElem?_eq_some, rules, List.mem_map]
  constructor
  · intro h
    obtain ⟨entry, hentry, rfl⟩ := h
    exact hentry
  · intro h
    exact ⟨_, h, rfl⟩

/-- A map that reads as a list has as many entries as the list has different rules. -/
theorem Reads.size_eq {successors : RuleMap S Q} {rules : List (Rule S Q)}
    (h : successors.Reads rules) : successors.size = rules.toFinset.card := by
  have hmem : ∀ r, r ∈ successors.rules ↔ r ∈ rules := fun r => mem_rules.trans (h _ _ _)
  have hlength : successors.rules.length = successors.size := by
    rw [RuleMap.rules, List.length_map, Std.HashMap.length_toList]
  rw [← hlength, ← List.toFinset_card_of_nodup successors.nodup_rules, List.toFinset.ext hmem]

end RuleMap

/-! ## The log of a reading -/

namespace Journal

variable {ρ ε α β : Type}

theorem ext {x y : Journal ρ ε α} (hentries : x.entries = y.entries)
    (houtcome : x.outcome = y.outcome) : x = y := by
  obtain ⟨entries, outcome⟩ := x
  obtain rfl : entries = y.entries := hentries
  obtain rfl : outcome = y.outcome := houtcome
  rfl

/-- A journal that goes on without writing has the entries written up to then. -/
theorem entries_bind_silent {x : Journal ρ ε α} {f : α → Journal ρ ε β}
    (h : ∀ a, (f a).entries = []) : (x >>= f).entries = x.entries := by
  cases hx : x.outcome with
  | error e => simp [bind, hx]
  | ok a => simp [bind, hx, h a]

end Journal

namespace Table

variable {S Q : Type} [Indexed S] [Indexed Q] [DecidableEq S] [DecidableEq Q] [Hashable S]
  [Hashable Q]

/-- Of a list without conflict the log tells how many different rules it has, and otherwise
nothing. -/
theorem entries_ofRules (rules : List (Rule S Q)) :
    (Rules.Conflicting rules ∧ (ofRules rules).entries = []) ∨
    ¬Rules.Conflicting rules ∧
      (ofRules rules).entries = [.rules rules.toFinset.card (size S Q)] := by
  rcases RuleMap.addAll_spec rules (RuleMap.reads_empty (S := S) (Q := Q)) with
    ⟨successors, hadd, hreads⟩ | ⟨q, s, first, second, hadd, hfirst⟩
  · rw [List.nil_append] at hreads
    refine Or.inr ⟨hreads.not_conflicting, ?_⟩
    rw [ofRules, hadd, ← hreads.size_eq]
    refine congrArg (_ :: ·) (Journal.entries_bind_silent fun _ => ?_)
    refine Journal.entries_bind_silent fun found => ?_
    cases found <;> rfl
  · refine Or.inl ⟨hfirst.conflicting, ?_⟩
    rw [ofRules, hadd]
    rfl

/-- Reading lists with the same members leaves the same log. -/
theorem entries_ofRules_congr {rules rules' : List (Rule S Q)}
    (hsame : ∀ r, r ∈ rules ↔ r ∈ rules') :
    (ofRules rules).entries = (ofRules rules').entries := by
  have hconflicting := Rules.conflicting_congr hsame
  rcases entries_ofRules rules with ⟨hconflict, hlog⟩ | ⟨hnone, hlog⟩
  · rcases entries_ofRules rules' with ⟨_, hlog'⟩ | ⟨hnone', _⟩
    · rw [hlog, hlog']
    · exact absurd (hconflicting.mp hconflict) hnone'
  · rcases entries_ofRules rules' with ⟨hconflict', _⟩ | ⟨_, hlog'⟩
    · exact absurd (hconflicting.mpr hconflict') hnone
    · rw [hlog, hlog', List.toFinset.ext hsame]

end Table

/-! ## Reading lists with the same members -/

namespace Table

open Rules

variable {S Q : Type} [Indexed S] [Indexed Q]

/-- Two readings end alike: with the same table, or with the same defect, except that each may meet
a conflict of its own first. -/
inductive EndAlike :
    Except (Failure S Q) (Table S Q) → Except (Failure S Q) (Table S Q) → Prop where
  | table (t : Table S Q) : EndAlike (.ok t) (.ok t)
  | conflict (q q' : Q) (s s' : S) (first first' second second' : Q) :
    EndAlike (.error (.defect (.conflictingTransition q s first second)))
      (.error (.defect (.conflictingTransition q' s' first' second')))
  | tooLarge (count : Nat) :
    EndAlike (.error (.defect (.stateSpaceTooLarge count)))
      (.error (.defect (.stateSpaceTooLarge count)))
  | gap (q : Q) (s : S) :
    EndAlike (.error (.defect (.missingTransition q s)))
      (.error (.defect (.missingTransition q s)))

variable [DecidableEq S] [DecidableEq Q] [Hashable S] [Hashable Q] [LawfulIndexed S]
  [LawfulIndexed Q] {rules rules' : List (Rule S Q)}

/-- Where rules conflict, some conflict is reported. -/
theorem ofRules_of_conflicting (h : Conflicting rules) :
    ∃ q s first second,
      (ofRules rules).outcome = .error (.defect (.conflictingTransition q s first second)) := by
  have hverdict := ofRules_verdict rules
  generalize (ofRules rules).outcome = ending at hverdict
  cases hverdict with
  | conflict q s first second _ => exact ⟨q, s, first, second, rfl⟩
  | tooLarge hnone | gap _ _ hnone | table _ hnone => exact absurd h hnone

theorem ofRules_of_firstConflict {q first second : Q} {s : S}
    (h : FirstConflict rules q s first second) :
    (ofRules rules).outcome = .error (.defect (.conflictingTransition q s first second)) := by
  have hverdict := ofRules_verdict rules
  generalize (ofRules rules).outcome = ending at hverdict ⊢
  cases hverdict with
  | conflict _ _ _ _ h' => obtain ⟨rfl, rfl, rfl, rfl⟩ := h.unique h'; rfl
  | tooLarge hnone | gap _ _ hnone | table _ hnone => exact absurd h.conflicting hnone

theorem ofRules_of_tooLarge (hnone : ¬Conflicting rules) (hlarge : fits Q = false) :
    (ofRules rules).outcome = .error (.defect (.stateSpaceTooLarge (Indexed.count Q))) := by
  have hverdict := ofRules_verdict rules
  generalize (ofRules rules).outcome = ending at hverdict ⊢
  cases hverdict with
  | conflict q s first second hfirst => exact absurd hfirst.conflicting hnone
  | tooLarge => rfl
  | gap _ _ _ hfits | table _ _ hfits => rw [hlarge] at hfits; cases hfits

/-- Without a conflict, the first open pair is reported. -/
theorem ofRules_of_firstOpen (hnone : ¬Conflicting rules) (hfits : fits Q = true) {q : Q} {s : S}
    (hopen : FirstOpen rules q s) :
    (ofRules rules).outcome = .error (.defect (.missingTransition q s)) := by
  have hverdict := ofRules_verdict rules
  generalize (ofRules rules).outcome = ending at hverdict ⊢
  cases hverdict with
  | conflict q s first second hfirst => exact absurd hfirst.conflicting hnone
  | tooLarge _ hlarge => rw [hlarge] at hfits; cases hfits
  | gap q' s' _ _ hopen' => obtain ⟨rfl, rfl⟩ := hopen.unique hopen'; rfl
  | table _ _ _ hcovered => exact absurd hopen.1 (hcovered q s)

/-- A table is read exactly from the rules that are a total function, if there are few enough
states. -/
theorem exists_ofRules_eq_ok_iff :
    (∃ t, (ofRules rules).outcome = .ok t) ↔ Indexed.count Q ≤ maxStates ∧ Total rules := by
  constructor
  · intro h
    obtain ⟨t, ht⟩ := h
    have hverdict := ofRules_verdict rules
    rw [ht] at hverdict
    cases hverdict with
    | table _ hnone hfits hcovered _ =>
      exact ⟨of_decide_eq_true hfits, total_iff.mpr ⟨hnone, hcovered⟩⟩
  · intro h
    obtain ⟨hfits, htotal⟩ := h
    obtain ⟨f, hf⟩ := htotal.exists_function
    exact ⟨graph f, ofRules_eq_ok hf (decide_eq_true hfits)⟩

/-- Rules are read as a table only where they say of every pair what a function says, as the table
of the function. -/
theorem ofRules_eq_graph {t : Table S Q} (h : (ofRules rules).outcome = .ok t) :
    fits Q = true ∧ ∃ f, (∀ q s r, Rule.mk q s r ∈ rules ↔ r = f q s) ∧ t = graph f := by
  obtain ⟨hcount, htotal⟩ := exists_ofRules_eq_ok_iff.mp ⟨t, h⟩
  have hfits : fits Q = true := decide_eq_true hcount
  obtain ⟨f, hf⟩ := htotal.exists_function
  exact ⟨hfits, f, hf, Except.ok.inj (h.symm.trans (ofRules_eq_ok hf hfits))⟩

/-- Lists with the same members are read alike. -/
theorem endAlike_of_same (hsame : ∀ r, r ∈ rules ↔ r ∈ rules') :
    EndAlike (ofRules rules).outcome (ofRules rules').outcome := by
  have hconflicting := conflicting_congr hsame
  have hverdict := ofRules_verdict rules
  generalize hend : (ofRules rules).outcome = ending at hverdict ⊢
  cases hverdict with
  | conflict q s first second hfirst =>
    obtain ⟨q', s', first', second', hend'⟩ :=
      ofRules_of_conflicting (hconflicting.mp hfirst.conflicting)
    rw [hend']
    exact .conflict ..
  | tooLarge hnone hlarge =>
    rw [ofRules_of_tooLarge (hconflicting.not.mp hnone) hlarge]
    exact .tooLarge _
  | gap q s hnone hfits hopen =>
    rw [ofRules_of_firstOpen (hconflicting.not.mp hnone) hfits (hopen.congr hsame)]
    exact .gap q s
  | table t hnone hfits hcovered =>
    -- both lists say what one function says, and a function has one table
    obtain ⟨f, hf⟩ := (total_iff.mpr ⟨hnone, hcovered⟩).exists_function
    have ht : t = graph f := Except.ok.inj (hend.symm.trans (ofRules_eq_ok hf hfits))
    rw [ht, ofRules_eq_ok (fun q s r => (hsame _).symm.trans (hf q s r)) hfits]
    exact .table _

/-- The rules of two states that move to the symbol they read. -/
def followsSymbol : List (Rule Bool Bool) :=
  [⟨false, false, false⟩, ⟨false, true, true⟩, ⟨true, false, false⟩, ⟨true, true, true⟩]

/-- The same rules from the last to the first, two of them said twice. -/
def followsSymbolAgain : List (Rule Bool Bool) :=
  [⟨true, true, true⟩, ⟨true, false, false⟩, ⟨true, true, true⟩, ⟨false, true, true⟩,
    ⟨false, false, false⟩, ⟨true, false, false⟩]

end Table

end Automata
