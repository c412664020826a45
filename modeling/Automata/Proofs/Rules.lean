import Automata.Table.Rules
import Automata.Proofs.Tables

/-!
# Rules that describe a table

A list of rules describes a table when no two rules conflict and no pair is left open. The map that
is built from the list reads as the list as long as there is no conflict (`RuleMap.Reads`), and
stops at the first rule that conflicts with an earlier one otherwise. The search for an open pair
finds the first one, row by row. `Table.ofRules_verdict` puts the two together: which of the ends of
`Table.ofRules` comes about is said by the list alone.
-/

namespace Automata

/-! ## What is said about a list of rules -/

namespace Rules

variable {S Q : Type}

/-- Two rules of the list give a pair different successors. -/
def Conflicting (rules : List (Rule S Q)) : Prop :=
  ∃ q s r r', Rule.mk q s r ∈ rules ∧ Rule.mk q s r' ∈ rules ∧ r ≠ r'

/-- The rule that gives `q` on `s` the successor `second` is the first of the list to conflict with
an earlier one, which gives the successor `first`. -/
def FirstConflict (rules : List (Rule S Q)) (q : Q) (s : S) (first second : Q) : Prop :=
  ∃ earlier later, rules = earlier ++ Rule.mk q s second :: later ∧ ¬Conflicting earlier ∧
    Rule.mk q s first ∈ earlier ∧ first ≠ second

/-- The list has no rule for the pair. -/
def Open (rules : List (Rule S Q)) (q : Q) (s : S) : Prop := ∀ r, Rule.mk q s r ∉ rules

/-- The pair is the first, row by row, for which the list has no rule. -/
def FirstOpen [Indexed S] [Indexed Q] (rules : List (Rule S Q)) (q : Q) (s : S) : Prop :=
  Open rules q s ∧ ∀ q' s', Open rules q' s' →
    number q < number q' ∨ q = q' ∧ number s ≤ number s'

/-- Where there is a first conflict there is a conflict. -/
theorem FirstConflict.conflicting {rules : List (Rule S Q)} {q first second : Q} {s : S}
    (h : FirstConflict rules q s first second) : Conflicting rules := by
  obtain ⟨earlier, later, rfl, _, hfirst, hne⟩ := h
  exact ⟨q, s, first, second, List.mem_append_left _ hfirst,
    List.mem_append_right _ (List.mem_cons_self ..), hne⟩

end Rules

/-! ## The map of a list of rules -/

namespace RuleMap

variable {S Q : Type} [DecidableEq S] [DecidableEq Q] [Hashable S] [Hashable Q]

/-- The map gives a pair a successor exactly when a rule of the list does. -/
def Reads (successors : RuleMap S Q) (rules : List (Rule S Q)) : Prop :=
  ∀ q s r, successors[(q, s)]? = some r ↔ Rule.mk q s r ∈ rules

/-- A map has one successor for each pair, so only lists without a conflict are read as maps. -/
theorem Reads.not_conflicting {successors : RuleMap S Q} {rules : List (Rule S Q)}
    (h : successors.Reads rules) : ¬Rules.Conflicting rules := by
  intro hconflict
  obtain ⟨q, s, r, r', hr, hr', hne⟩ := hconflict
  rw [← h] at hr hr'
  rw [hr] at hr'
  exact hne (Option.some.inj hr')

theorem reads_empty : (∅ : RuleMap S Q).Reads [] := by
  intro q s r
  rw [Std.HashMap.getElem?_empty]
  exact ⟨fun h => (by cases h), fun h => absurd h List.not_mem_nil⟩

/-- A rule that says again what is known changes nothing. -/
theorem Reads.known {successors : RuleMap S Q} {rules : List (Rule S Q)}
    (h : successors.Reads rules) {r : Rule S Q}
    (hr : successors[(r.source, r.symbol)]? = some r.target) : successors.Reads (rules ++ [r]) := by
  intro q s x
  rw [h, List.mem_append, List.mem_singleton]
  refine ⟨Or.inl, fun hx => hx.elim id fun heq => ?_⟩
  rw [heq]
  exact (h _ _ _).mp hr

/-- A rule about a new pair is added to the map. -/
theorem Reads.insert {successors : RuleMap S Q} {rules : List (Rule S Q)}
    (h : successors.Reads rules) {r : Rule S Q} (hr : successors[(r.source, r.symbol)]? = none) :
    RuleMap.Reads (successors.insert (r.source, r.symbol) r.target) (rules ++ [r]) := by
  intro q s x
  rw [Std.HashMap.getElem?_insert, List.mem_append, List.mem_singleton]
  split
  next heq =>
    -- no earlier rule is about this pair, so the new one is all there is
    obtain ⟨rfl, rfl⟩ := Prod.mk.inj (eq_of_beq heq)
    rw [← h, hr]
    constructor
    · intro hx
      rw [← Option.some.inj hx]
      exact Or.inr rfl
    · intro hx
      rcases hx with hx | hx
      · cases hx
      · rw [← hx]
  next hne =>
    rw [h]
    refine ⟨Or.inl, fun hx => hx.elim id fun heq => ?_⟩
    rw [← heq] at hne
    exact absurd (beq_self_eq_true _) hne

/-- The rules are read in order, up to the first that conflicts with an earlier one. Until then the
map reads as the rules that were read, which is the invariant. -/
theorem addAll_spec : ∀ (rest : List (Rule S Q)) {earlier : List (Rule S Q)}
    {successors : RuleMap S Q}, successors.Reads earlier →
    (∃ successors', successors.addAll rest = .ok successors' ∧
      successors'.Reads (earlier ++ rest)) ∨
    ∃ q s first second,
      successors.addAll rest = .error (.conflictingTransition q s first second) ∧
        Rules.FirstConflict (earlier ++ rest) q s first second := by
  intro rest
  induction rest with
  | nil =>
    intro earlier successors h
    exact Or.inl ⟨successors, rfl, by rwa [List.append_nil]⟩
  | cons r rest ih =>
    intro earlier successors h
    rw [addAll, List.append_cons]
    cases hr : successors[(r.source, r.symbol)]? with
    | none => exact ih (h.insert hr)
    | some first =>
      -- the map reads as the earlier rules, so `first` is what one of them says
      by_cases heq : first = r.target
      · simp only [if_pos heq]
        exact ih (h.known (heq ▸ hr))
      · simp only [if_neg heq]
        refine Or.inr ⟨_, _, _, _, rfl, earlier, rest, ?_, h.not_conflicting, ?_, heq⟩
        · exact (List.append_cons earlier r rest).symm
        · exact (h _ _ _).mp hr

/-! ## The first open pair -/

/-- A pair without an entry is a pair without a rule. -/
theorem Reads.contains_eq_false {successors : RuleMap S Q} {rules : List (Rule S Q)}
    (h : successors.Reads rules) {q : Q} {s : S} :
    successors.contains (q, s) = false ↔ Rules.Open rules q s := by
  rw [Std.HashMap.contains_eq_isSome_getElem?, Option.isSome_eq_false_iff,
    Option.isNone_iff_eq_none, Option.eq_none_iff_forall_ne_some]
  exact forall_congr' fun r => not_congr (h q s r)

section Gap

variable [Indexed S] [Indexed Q] [LawfulIndexed S] [LawfulIndexed Q]

/-- Among the last `n` states the search finds the first open pair, or there is none. -/
theorem gapFrom_spec {successors : RuleMap S Q} {rules : List (Rule S Q)}
    (h : successors.Reads rules) : ∀ (n i : Nat), i + n = Indexed.count Q →
    (successors.gapFrom (values S) n i = .ok none ∧
      ∀ q s, i ≤ number q → ¬Rules.Open rules q s) ∨
    ∃ q s, successors.gapFrom (values S) n i = .ok (some (q, s)) ∧ Rules.Open rules q s ∧
      ∀ q' s', i ≤ number q' → Rules.Open rules q' s' →
        number q < number q' ∨ q = q' ∧ number s ≤ number s' := by
  intro n
  induction n with
  | zero =>
    intro i hi
    refine Or.inl ⟨rfl, fun q s hq _ => ?_⟩
    have hlt := number_lt q
    omega
  | succ n ih =>
    intro i hi
    obtain ⟨q, hq, hnumber⟩ := exists_number (α := Q) (i := i) (by omega)
    rw [gapFrom, hq, ok_bind]
    cases hfind : (values S).find? fun s => !successors.contains (q, s) with
    | some s =>
      obtain ⟨hs, hleast⟩ := find?_values hfind
      refine Or.inr ⟨q, s, rfl, h.contains_eq_false.mp ((Bool.not_eq_true' _).mp hs), ?_⟩
      intro q' s' hle hopen
      rcases Nat.lt_or_eq_of_le hle with hlt | heq
      · exact Or.inl (hnumber.symm ▸ hlt)
      · obtain rfl : q = q' := number_inj.mp (hnumber.trans heq)
        exact Or.inr ⟨rfl, hleast s' ((Bool.not_eq_true' _).mpr (h.contains_eq_false.mpr hopen))⟩
    | none =>
      -- the row has no open pair, so the search goes on with the next
      have hrow : ∀ q' s', i ≤ number q' → Rules.Open rules q' s' → i + 1 ≤ number q' := by
        intro q' s' hle hopen
        refine Nat.lt_of_le_of_ne hle fun heq => ?_
        obtain rfl : q = q' := number_inj.mp (hnumber.trans heq)
        have hnone := List.find?_eq_none.mp hfind s' (mem_values s')
        exact hnone ((Bool.not_eq_true' _).mpr (h.contains_eq_false.mpr hopen))
      rcases ih (i + 1) (by omega) with ⟨hgap, hnone⟩ | ⟨p, s, hgap, hopen, hfirst⟩
      · exact Or.inl ⟨hgap, fun q' s' hle hopen => hnone q' s' (hrow q' s' hle hopen) hopen⟩
      · exact Or.inr ⟨p, s, hgap, hopen,
          fun q' s' hle hopen' => hfirst q' s' (hrow q' s' hle hopen') hopen'⟩

/-- The search for a gap goes row by row, so it finds the first open pair, or there is none. -/
theorem gap?_spec {successors : RuleMap S Q} {rules : List (Rule S Q)}
    (h : successors.Reads rules) :
    (successors.gap? = .ok none ∧ ∀ q s, ¬Rules.Open rules q s) ∨
    ∃ q s, successors.gap? = .ok (some (q, s)) ∧ Rules.FirstOpen rules q s := by
  rw [gap?, all_eq, ok_bind]
  rcases gapFrom_spec h (Indexed.count Q) 0 (Nat.zero_add _) with
    ⟨hgap, hnone⟩ | ⟨q, s, hgap, hopen, hfirst⟩
  · exact Or.inl ⟨hgap, fun q s => hnone q s (Nat.zero_le _)⟩
  · exact Or.inr ⟨q, s, hgap, hopen, fun q' s' => hfirst q' s' (Nat.zero_le _)⟩

end Gap

end RuleMap

namespace Journal

variable {S Q ρ α : Type}

@[simp] theorem outcome_liftM_defect (x : Except (Defect S Q) α) :
    (liftM x : Journal ρ (Failure S Q) α).outcome = x.mapError .defect := rfl

@[simp] theorem outcome_liftM_fault (x : Checked α) :
    (liftM x : Journal ρ (Failure S Q) α).outcome = x.mapError .fault := rfl

end Journal

/-! ## The table of a list of rules -/

namespace Table

variable {S Q : Type} [Indexed S] [Indexed Q] [DecidableEq S] [DecidableEq Q] [Hashable S]
  [Hashable Q]

/-- The ways in which reading a table from rules ends, and what the list of rules is like in each
of them. -/
inductive RulesVerdict (rules : List (Rule S Q)) : Except (Failure S Q) (Table S Q) → Prop where
  | conflict (q : Q) (s : S) (first second : Q) : Rules.FirstConflict rules q s first second →
    RulesVerdict rules (.error (.defect (.conflictingTransition q s first second)))
  | tooLarge : ¬Rules.Conflicting rules → fits Q = false →
    RulesVerdict rules (.error (.defect (.stateSpaceTooLarge (Indexed.count Q))))
  | gap (q : Q) (s : S) : ¬Rules.Conflicting rules → fits Q = true → Rules.FirstOpen rules q s →
    RulesVerdict rules (.error (.defect (.missingTransition q s)))
  | table (t : Table S Q) : ¬Rules.Conflicting rules → fits Q = true →
    (∀ q s, ¬Rules.Open rules q s) →
    (Indexed.count Q * Indexed.count S < indexLimit →
      ∀ q s r, t.get q s = .ok r ↔ Rule.mk q s r ∈ rules) →
    RulesVerdict rules (.ok t)

/-- The order of the checks: conflicts, then the number of states, then gaps. -/
theorem ofRules_outcome (rules : List (Rule S Q)) :
    (ofRules rules).outcome =
      ((∅ : RuleMap S Q).addAll rules).mapError .defect >>= fun successors =>
        (requireFits S Q).mapError .defect >>= fun _ =>
          successors.gap?.mapError .fault >>= fun
            | some (q, s) => .error (.defect (.missingTransition q s))
            | none => (ofFunction fun q s => .ok (successors.getD (q, s) q)).mapError .fault := by
  simp only [ofRules, Journal.outcome_bind, Journal.outcome_liftM_defect,
    Journal.outcome_liftM_fault, record, Journal.outcome_write, ok_bind]
  refine congrArg _ (funext fun successors => congrArg _ (funext fun _ => congrArg _ (funext ?_)))
  intro found
  cases found <;> rfl

/-- Rules that say of every pair what a function says, in any order and number, are read as the
table of the function. -/
theorem ofRules_eq_ok [LawfulIndexed S] [LawfulIndexed Q] {rules : List (Rule S Q)} {f : Q → S → Q}
    (hrules : ∀ q s r, Rule.mk q s r ∈ rules ↔ r = f q s) (hfits : fits Q = true) :
    (ofRules rules).outcome = .ok (graph f) := by
  rw [ofRules_outcome]
  rcases RuleMap.addAll_spec rules (RuleMap.reads_empty (S := S) (Q := Q)) with
    ⟨successors, hadd, hreads⟩ | ⟨_, _, _, _, _, hfirst⟩
  · rw [List.nil_append] at hreads
    have hgetD : (fun q s => successors.getD (q, s) q) = f := by
      funext q s
      rw [Std.HashMap.getD_eq_getD_getElem?, (hreads q s (f q s)).mpr ((hrules q s _).mpr rfl),
        Option.getD_some]
    rw [hadd, requireFits, hfits]
    rcases RuleMap.gap?_spec hreads with ⟨hgap, _⟩ | ⟨q, s, _, hopen, _⟩
    · have htable := ofFunction_eq (S := S) hfits fun q s => successors.getD (q, s) q
      rw [hgetD] at htable
      simp [hgap, htable]
    · exact absurd ((hrules q s _).mpr rfl) (hopen (f q s))
  · -- two rules for one pair both say what the function says
    obtain ⟨q, s, r, r', hr, hr', hne⟩ := hfirst.conflicting
    rw [List.nil_append, hrules] at hr hr'
    exact absurd (hr.trans hr'.symm) hne

/-- The list of rules alone says how reading it as a table ends. -/
theorem ofRules_verdict [LawfulIndexed S] [LawfulIndexed Q] (rules : List (Rule S Q)) :
    RulesVerdict rules (ofRules rules).outcome := by
  rw [ofRules_outcome]
  rcases RuleMap.addAll_spec rules (RuleMap.reads_empty (S := S) (Q := Q)) with
    ⟨successors, hadd, hreads⟩ | ⟨q, s, first, second, hadd, hconflict⟩
  · rw [List.nil_append] at hreads
    rw [hadd]
    have hnone := hreads.not_conflicting
    cases hfits : fits Q with
    | false =>
      rw [requireFits, hfits]
      exact .tooLarge hnone hfits
    | true =>
      rw [requireFits, hfits]
      rcases RuleMap.gap?_spec hreads with ⟨hgap, hcovered⟩ | ⟨q, s, hgap, hfirst⟩
      · obtain ⟨t, ht, hget⟩ := ofFunction_eq_ok hfits fun q s => successors.getD (q, s) q
        have houtcome : RulesVerdict rules (.ok t) := by
          refine .table t hnone hfits hcovered fun hcells q s r => ?_
          obtain ⟨r', hr'⟩ := Classical.not_forall_not.mp (hcovered q s)
          rw [hget hcells, Except.ok.injEq, ← hreads, Std.HashMap.getD_eq_getD_getElem?,
            (hreads q s r').mpr hr', Option.getD_some, Option.some.injEq]
        simpa [hgap, ht] using houtcome
      · simpa [hgap] using RulesVerdict.gap q s hnone hfits hfirst
  · rw [hadd]
    exact .conflict q s first second hconflict

end Table

end Automata
