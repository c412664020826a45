import Automata.Demo
import Automata.Proofs.Distinguishing
import Automata.Proofs.Remainders
import Automata.Proofs.Transcripts

/-!
# The comparison of two moduli

The automaton of a modulus keeps the remainder of what it has read (`Numeral.Reduces`), so what the
program says about two moduli is arithmetic. The lists and the inclusion need only numerals of the
numbers in question. For the word that tells the moduli apart all words count: one of them stands
for a multiple of one modulus that is not zero, so for a number that is not less than the smaller
modulus, and among the words for such numbers the numeral of the smaller modulus comes first
(`Numeral.shortlexLe_of_le_value`).

> `comparison_is_arithmetic`: the automata of both moduli take the numeral of every number to its
> remainder, and the program shows what divisibility says about the moduli.
-/

namespace Automata.Demo.Divisibility

open Automaton Numeral

/-- Possible moduli are positive and leave room for the remainders. -/
theorem isModulus_iff {m : Nat} : isModulus m = true ↔ 0 < m ∧ m ≤ maxModulus := by
  rw [isModulus, Bool.and_eq_true, decide_eq_true_eq, decide_eq_true_eq]
  exact Iff.rfl

/-- The automaton of a possible modulus is made, and its states are remainders. -/
theorem divisibleBy_eq_ok {m : Nat} (h : isModulus m = true) :
    ∃ d, (divisibleBy m).outcome = .ok d ∧ Reduces m d := by
  obtain ⟨hpos, hle⟩ := isModulus_iff.mp h
  exact exists_reduces rfl hpos hle

/-! ## Two moduli -/

section Moduli

variable {a b : Nat} {da db : Automaton Bool State}

theorem pairs_fit : Indexed.count (State × State) < indexLimit := by decide

/-- A combination lists the numbers for which `op` holds of the two divisibilities. -/
theorem accepted_eq (ha : Reduces a da) (hb : Reduces b db) {op : Bool → Bool → Bool}
    {c : Automaton Bool (State × State)} (hc : Combines op da db c) (limit : Nat) :
    accepted c limit =
      .ok ((List.range (limit + 1)).filter fun n => op (decide (a ∣ n)) (decide (b ∣ n))) := by
  refine filterM_eq_ok _ fun n _ => ?_
  rw [hc.accepts_eq pairs_fit (ha.accepts_eq _) (hb.accepts_eq _), value_binary]

/-- One divisibility implies the other if it does so for the modulus itself. -/
theorem isSubsetOf_eq (ha : Reduces a da) (hb : Reduces b db) :
    (da.isSubsetOf db).outcome = .ok (decide (b ∣ a)) := by
  obtain ⟨x, hx, hiff⟩ := isSubsetOf_decides pairs_fit ha.unfailing hb.unfailing
  have hdvd : (∀ word, da.accepts word = .ok true → db.accepts word = .ok true) ↔ b ∣ a := by
    simp only [ha.accepts_eq, hb.accepts_eq, Except.ok.injEq, decide_eq_true_eq]
    constructor
    · intro hall
      have hself := hall (binary a)
      rw [value_binary] at hself
      exact hself (Nat.dvd_refl a)
    · exact fun hba word haw => Nat.dvd_trans hba haw
  rw [hx, Bool.eq_iff_iff.mpr (hiff.trans (hdvd.trans decide_eq_true_iff.symm))]

theorem distinguishes_iff (ha : Reduces a da) (hb : Reduces b db) (word : List Bool) :
    Distinguishes da db word ↔ ¬(a ∣ value word ↔ b ∣ value word) := by
  unfold Distinguishes
  rw [ha.accepts_eq, hb.accepts_eq]
  by_cases hda : a ∣ value word <;> by_cases hdb : b ∣ value word <;> simp [hda, hdb]

/-- The smaller modulus divides itself, and the larger one does not divide it. -/
theorem distinguishes_binary_min (ha : Reduces a da) (hb : Reduces b db) (hapos : 0 < a)
    (hbpos : 0 < b) (hne : a ≠ b) : Distinguishes da db (binary (min a b)) := by
  rw [distinguishes_iff ha hb, value_binary]
  intro hiff
  rcases Nat.lt_or_gt_of_ne hne with hlt | hgt
  · rw [Nat.min_eq_left (Nat.le_of_lt hlt)] at hiff
    exact Nat.not_dvd_of_pos_of_lt hapos hlt (hiff.mp (Nat.dvd_refl a))
  · rw [Nat.min_eq_right (Nat.le_of_lt hgt)] at hiff
    exact Nat.not_dvd_of_pos_of_lt hbpos hgt (hiff.mpr (Nat.dvd_refl b))

/-- A word that tells the moduli apart stands for a positive multiple of one of them. -/
theorem min_le_value (ha : Reduces a da) (hb : Reduces b db) {word : List Bool}
    (h : Distinguishes da db word) : min a b ≤ value word := by
  rw [distinguishes_iff ha hb] at h
  have hpos : 0 < value word := by
    refine Nat.pos_of_ne_zero fun hzero => h ?_
    rw [hzero]
    exact iff_of_true (Nat.dvd_zero a) (Nat.dvd_zero b)
  by_cases hda : a ∣ value word
  · exact Nat.le_trans (Nat.min_le_left a b) (Nat.le_of_dvd hpos hda)
  · have hdb : b ∣ value word := Classical.byContradiction fun hdb => h (iff_of_false hda hdb)
    exact Nat.le_trans (Nat.min_le_right a b) (Nat.le_of_dvd hpos hdb)

/-- The first word that tells two moduli apart is the numeral of the smaller one. -/
theorem distinguishingWord_eq (ha : Reduces a da) (hb : Reduces b db) (hapos : 0 < a)
    (hbpos : 0 < b) : (da.distinguishingWord db).outcome =
      .ok (if a = b then none else some (binary (min a b))) := by
  obtain ⟨answer, hanswer, hfirst, _⟩ :=
    distinguishingWord_isFirst pairs_fit ha.unfailing hb.unfailing
  rw [hanswer]
  refine congrArg Except.ok (hfirst.unique ?_)
  split
  next heq =>
    refine isFirst_none fun word => ?_
    rw [distinguishes_iff ha hb, heq]
    exact fun h => h Iff.rfl
  next hne =>
    exact isFirst_some (distinguishes_binary_min ha hb hapos hbpos hne) fun word hword =>
      shortlexLe_of_le_value (Nat.lt_min.mpr ⟨hapos, hbpos⟩) (min_le_value ha hb hword)

end Moduli

/-! ## What the program shows -/

/-- The numbers up to the limit that satisfy a condition, as they are shown. -/
def listing (o : Options) (p : Nat → Bool) : String :=
  listed ((List.range (o.limit + 1)).filter p)

/-- What there is to say about telling the moduli apart. -/
def apart (o : Options) : List String :=
  if o.a = o.b then []
  else [s!"shortest word telling them apart: {String.ofList (Nat.toDigits 2 (min o.a o.b))}"]

/-- What divisibility says about two moduli, line by line. -/
def comparison (o : Options) : List String :=
  let both := listing o fun n => decide (o.a ∣ n) && decide (o.b ∣ n)
  let either := listing o fun n => decide (o.a ∣ n) || decide (o.b ∣ n)
  let onlyA := listing o fun n => decide (o.a ∣ n) && !decide (o.b ∣ n)
  s!"args = {o.text}" ::
  s!"reachable states of mod {o.a}: {o.a}" ::
  s!"divisible by {o.a} and {o.b}: {both}" ::
  s!"divisible by {o.a} or {o.b}: {either}" ::
  s!"divisible by {o.a} but not {o.b}: {onlyA}" ::
  s!"divisible by {o.a} implies divisible by {o.b}: {describe (decide (o.b ∣ o.a))}" ::
  apart o

theorem shows_run {layout : Layout} {o : Options} (ha : isModulus o.a = true)
    (hb : isModulus o.b = true) : Shows layout .info (run o) (comparison o) () := by
  obtain ⟨da, hda, hra⟩ := divisibleBy_eq_ok ha
  obtain ⟨db, hdb, hrb⟩ := divisibleBy_eq_ok hb
  obtain ⟨hapos, hale⟩ := isModulus_iff.mp ha
  obtain ⟨hbpos, _⟩ := isModulus_iff.mp hb
  obtain ⟨states, hstates, hlen⟩ := hra.reachableStates_eq hapos hale
  obtain ⟨both, hboth, hcboth⟩ := intersect_eq_ok pairs_fit da db
  obtain ⟨either, heither, hceither⟩ := union_eq_ok pairs_fit da db
  obtain ⟨onlyA, honlyA, hconlyA⟩ := difference_eq_ok pairs_fit da db
  rw [run, ha, hb]
  -- the program step by step: the library is silent, and a line that is said is the next to show
  refine Shows.say_bind ?_
  refine (shows_quiet (quiet_ofFunction _ _ _) hda).silent_bind ?_
  refine (shows_quiet (quiet_ofFunction _ _ _) hdb).silent_bind ?_
  refine (shows_quiet (quiet_reachableStates da) hstates).silent_bind ?_
  rw [hlen]
  refine Shows.say_bind ?_
  refine (shows_quiet (quiet_intersect da db) hboth).silent_bind ?_
  refine (shows_quiet (quiet_union da db) heither).silent_bind ?_
  refine (shows_quiet (quiet_difference da db) honlyA).silent_bind ?_
  refine (shows_checked (accepted_eq hra hrb hcboth o.limit)).silent_bind ?_
  refine Shows.say_bind ?_
  refine (shows_checked (accepted_eq hra hrb hceither o.limit)).silent_bind ?_
  refine Shows.say_bind ?_
  refine (shows_checked (accepted_eq hra hrb hconlyA o.limit)).silent_bind ?_
  refine Shows.say_bind ?_
  refine (shows_quiet (quiet_isSubsetOf da db) (isSubsetOf_eq hra hrb)).silent_bind ?_
  refine Shows.say_bind ?_
  refine (shows_quiet (quiet_distinguishingWord da db)
    (distinguishingWord_eq hra hrb hapos hbpos)).silent_bind ?_
  by_cases heq : o.a = o.b
  · rw [if_pos heq, apart, if_pos heq]
    exact shows_pure ()
  · rw [if_neg heq, apart, if_neg heq, ← map_digit_binary]
    exact shows_say _

/-- **The program computes divisibility.** Let both moduli be possible ones. Then their automata
take the numeral of every number to its remainder. The program prints how many states of the first
one are reached, which is the first modulus; the numbers up to the limit, in ascending order, that
both moduli divide, that one of them divides, and that only the first one divides; and whether the
first modulus is a multiple of the second. At the end it prints the smaller modulus in binary,
unless the moduli are the same. -/
theorem comparison_is_arithmetic (o : Options) (ha : isModulus o.a = true)
    (hb : isModulus o.b = true) :
    (∀ m, m = o.a ∨ m = o.b → ∃ d, (divisibleBy m).outcome = .ok d ∧
      ∀ n, ∃ q, d.run d.start (binary n) = .ok q ∧ q.val = n % m) ∧
    ∀ layout, transcript layout .info (run o) = (comparison o, none) := by
  refine ⟨fun m hm => ?_, fun layout => (shows_run ha hb).transcript_eq⟩
  have hmodulus : isModulus m = true := by
    rcases hm with rfl | rfl
    · exact ha
    · exact hb
  obtain ⟨d, hd, hreduces⟩ := divisibleBy_eq_ok hmodulus
  exact ⟨d, hd, hreduces.run_binary⟩

/-- What the program says about the moduli 6 and 4 and the numbers up to 12. -/
def sixAndFour : List String :=
  ["args = Cli \x7b a: 6, b: 4, limit: 12 \x7d",
    "reachable states of mod 6: 6",
    "divisible by 6 and 4: [0, 12]",
    "divisible by 6 or 4: [0, 4, 6, 8, 12]",
    "divisible by 6 but not 4: [6]",
    "divisible by 6 implies divisible by 4: false",
    "shortest word telling them apart: 100"]

/-- Both moduli divide twelve, neither divides the other, and the word for four tells them apart. -/
theorem comparison_is_arithmetic_sixAndFour :
    isModulus 6 = true ∧ isModulus 4 = true ∧
    transcript Level.line .info (run ⟨6, 4, 12⟩) = (sixAndFour, none) := by
  have ha : isModulus 6 = true := by decide
  have hb : isModulus 4 = true := by decide
  have hlines : comparison ⟨6, 4, 12⟩ = sixAndFour := by decide +kernel
  rw [(comparison_is_arithmetic ⟨6, 4, 12⟩ ha hb).2, hlines]
  exact ⟨ha, hb, rfl⟩

/-- A command line that gives two possible moduli is answered with their comparison. -/
theorem perform_divisibility {args : List String} {r : CommandLine.Reading}
    (hread : command.read args = .ok r) (ha : isModulus (Options.ofReading r).a = true)
    (hb : isModulus (Options.ofReading r).b = true) :
    perform "divisibility" args = some (comparison (.ofReading r), none) := by
  have hprogram : Shows Level.line .info (program args) (comparison (.ofReading r)) () :=
    (shows_arguments hread).silent_bind (shows_run ha hb)
  exact congrArg some hprogram.transcript_eq

end Automata.Demo.Divisibility
