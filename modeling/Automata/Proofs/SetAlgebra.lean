import Mathlib.Data.Finset.Card
import Automata.Proofs.SetHistories
import Automata.Proofs.Walks

/-!
# The algebra of bit sets

Bit sets are compared by their words, and that is a comparison of sets: those over one universe with
the same members have the same words, in whatever way they came about. So a law of sets is a law of
bit sets as soon as both of its sides have the same members. A `Term` is a combination of sets over
one universe. It is carried out by the checked operations, which never meet a fault there
(`Term.eval_eq_ok`), and whether a number is a member of what comes out is a question about single
bits (`Term.holds`). By this every identity between single bits is one between bit sets:

> `same_iff_holds`: two terms come to equal sets exactly when they hold of the same numbers.

`canonical_and_boolean` collects what follows: equality is equality of sets, the laws of Boolean
algebra hold as equalities, and lengths count members.
-/

namespace Automata.BitSet

/-! ## Equality -/

/-- Bit sets are equal, word by word, when they have the same universe and the same members. -/
theorem beq_iff {s t : BitSet} :
    (s == t) = true ↔ s.extent = t.extent ∧ ∀ i, s.contains i = t.contains i := by
  rw [beq_iff_eq]
  constructor
  · rintro rfl
    exact ⟨rfl, fun _ => rfl⟩
  · intro h
    exact ext h.1 fun i _ => h.2 i

/-- Every bit set comes about by calls: it is enough to add its members to the empty set. -/
theorem exists_history (s : BitSet) : ∃ calls, (operations.performAll [] calls).1 = [s] := by
  refine ⟨[.new s.extent, .extend 0 s.toList], ?_⟩
  show [((empty s.extent).extend s.toList).1] = [s]
  obtain ⟨_, hextent, hcontains⟩ := extend_eq s.toList (empty s.extent)
  have hfits : s.toList.takeWhile (· < s.extent) = s.toList := by
    refine List.takeWhile_eq_self_iff.mpr fun i hi => ?_
    rw [toList_eq, List.mem_filter, List.mem_range] at hi
    exact decide_eq_true hi.1
  refine congrArg (fun t => [t]) (ext hextent fun i _ => ?_)
  rw [hcontains, contains_empty, Bool.or_false]
  show decide (i ∈ s.toList.takeWhile (· < s.extent)) = _
  rw [hfits, Bool.eq_iff_iff, decide_eq_true_eq, mem_toList]

/-! ## Terms -/

/-- A combination of sets over one universe. -/
inductive Term (extent : Nat) where
  | of (s : BitSet) (h : s.extent = extent)
  | empty
  | full
  | complement (e : Term extent)
  | intersection (e f : Term extent)
  | union (e f : Term extent)

/-- Both computations give a set, and the sets are equal. -/
def Same (x y : Checked BitSet) : Prop := ∃ u v, x = .ok u ∧ y = .ok v ∧ (u == v) = true

namespace Term

variable {extent : Nat}

/-- Carries out the operations of a term. -/
def eval : Term extent → Checked BitSet
  | of s _ => .ok s
  | empty => .ok (.empty extent)
  | full => .ok (.full extent)
  | complement e => do return (← e.eval).complement
  | intersection e f => do (← e.eval).intersection (← f.eval)
  | union e f => do (← e.eval).union (← f.eval)

/-- Whether a number of the universe should be a member of the set that the term comes to. -/
def holds (i : Nat) : Term extent → Bool
  | of s _ => s.contains i
  | empty => false
  | full => true
  | complement e => !e.holds i
  | intersection e f => e.holds i && f.holds i
  | union e f => e.holds i || f.holds i

/-- Terms come to a set over their universe, and its members are the numbers they hold of. -/
theorem eval_eq_ok (e : Term extent) : ∃ u, e.eval = .ok u ∧ u.extent = extent ∧
    ∀ i, i < extent → u.contains i = e.holds i := by
  induction e with
  | of s h => exact ⟨s, rfl, h, fun _ _ => rfl⟩
  | empty => exact ⟨.empty extent, rfl, rfl, fun i _ => contains_empty extent i⟩
  | full => exact ⟨.full extent, rfl, rfl, fun _ hi => contains_full hi⟩
  | complement e ih =>
    obtain ⟨u, hu, hextent, hcontains⟩ := ih
    refine ⟨u.complement, by rw [eval, hu]; rfl, hextent, fun i hi => ?_⟩
    rw [contains_complement (hextent ▸ hi), hcontains i hi, holds]
  | intersection e f ihe ihf =>
    obtain ⟨u, hu, hextent, hcontains⟩ := ihe
    obtain ⟨v, hv, hextent', hcontains'⟩ := ihf
    obtain ⟨w, hw, hextentw, hcontainsw⟩ := intersection_eq_ok (hextent.trans hextent'.symm)
    refine ⟨w, by rw [eval, hu, hv]; exact hw, hextentw.trans hextent, fun i hi => ?_⟩
    rw [hcontainsw, hcontains i hi, hcontains' i hi, holds]
  | union e f ihe ihf =>
    obtain ⟨u, hu, hextent, hcontains⟩ := ihe
    obtain ⟨v, hv, hextent', hcontains'⟩ := ihf
    obtain ⟨w, hw, hextentw, hcontainsw⟩ := union_eq_ok (hextent.trans hextent'.symm)
    refine ⟨w, by rw [eval, hu, hv]; exact hw, hextentw.trans hextent, fun i hi => ?_⟩
    rw [hcontainsw, hcontains i hi, hcontains' i hi, holds]

/-- **Laws of single bits are laws of bit sets.** Two terms come to equal sets exactly when they
hold of the same numbers of the universe. -/
theorem same_iff_holds (e f : Term extent) :
    Same e.eval f.eval ↔ ∀ i, i < extent → e.holds i = f.holds i := by
  obtain ⟨u, hu, hextent, hcontains⟩ := e.eval_eq_ok
  obtain ⟨v, hv, hextent', hcontains'⟩ := f.eval_eq_ok
  constructor
  · rintro ⟨u', v', hu', hv', hbeq⟩ i hi
    cases hu.symm.trans hu'
    cases hv.symm.trans hv'
    rw [← hcontains i hi, ← hcontains' i hi, eq_of_beq hbeq]
  · intro h
    refine ⟨u, v, hu, hv, beq_iff_eq.mpr (ext (hextent.trans hextent'.symm) fun i hi => ?_)⟩
    rw [hextent] at hi
    rw [hcontains i hi, hcontains' i hi, h i hi]

theorem same_of_holds (e f : Term extent) (h : ∀ i, e.holds i = f.holds i) :
    Same e.eval f.eval := (same_iff_holds e f).mpr fun i _ => h i

end Term

/-! ## Lengths -/

/-- The members as a finite set. -/
def members (s : BitSet) : Finset Nat := s.toList.toFinset

theorem mem_members {s : BitSet} {i : Nat} : i ∈ s.members ↔ s.contains i = true := by
  rw [members, List.mem_toFinset, mem_toList]

theorem card_members (s : BitSet) : s.members.card = s.len := by
  rw [members, List.toFinset_card_of_nodup ((pairwise_toList s).imp Nat.ne_of_lt), len_eq,
    toList_eq]

/-- Each number of the universe is a member of a set or of its complement, and not of both. -/
theorem len_add_len_complement (s : BitSet) : s.len + s.complement.len = s.extent := by
  have hextent : s.complement.extent = s.extent := rfl
  have hcomplement : (List.range s.extent).filter s.complement.contains =
      (List.range s.extent).filter fun i => !s.contains i :=
    List.filter_congr fun i hi => contains_complement (List.mem_range.mp hi)
  rw [len_eq, len_eq, hextent, hcomplement, ← List.length_eq_length_filter_add, List.length_range]

/-- The common members of two sets are counted twice when their lengths are added. -/
theorem len_union_add_len_intersection {s t : BitSet} (h : s.extent = t.extent) :
    ∃ u v, s.union t = .ok u ∧ s.intersection t = .ok v ∧ u.len + v.len = s.len + t.len := by
  obtain ⟨u, hu, _, hunion⟩ := union_eq_ok h
  obtain ⟨v, hv, _, hintersection⟩ := intersection_eq_ok h
  refine ⟨u, v, hu, hv, ?_⟩
  have hmembers : u.members = s.members ∪ t.members := by
    ext i
    rw [Finset.mem_union, mem_members, mem_members, mem_members, hunion, Bool.or_eq_true]
  have hcommon : v.members = s.members ∩ t.members := by
    ext i
    rw [Finset.mem_inter, mem_members, mem_members, mem_members, hintersection, Bool.and_eq_true]
  rw [← card_members, ← card_members, ← card_members, ← card_members, hmembers, hcommon]
  exact Finset.card_union_add_card_inter s.members t.members

/-! ## Laws -/

/-- The laws of Boolean algebra for three sets over one universe, as equalities of bit sets. -/
structure BooleanLaws (extent : Nat) (a b c : BitSet) : Prop where
  complement_complement : (a.complement.complement == a) = true
  complement_intersection :
    Same (do return (← a.intersection b).complement) (a.complement.union b.complement)
  complement_union :
    Same (do return (← a.union b).complement) (a.complement.intersection b.complement)
  intersection_comm : Same (a.intersection b) (b.intersection a)
  union_comm : Same (a.union b) (b.union a)
  intersection_assoc :
    Same (do (← a.intersection b).intersection c) (do a.intersection (← b.intersection c))
  union_assoc : Same (do (← a.union b).union c) (do a.union (← b.union c))
  intersection_union :
    Same (do a.intersection (← b.union c))
      (do (← a.intersection b).union (← a.intersection c))
  union_intersection :
    Same (do a.union (← b.intersection c)) (do (← a.union b).intersection (← a.union c))
  intersection_absorbs : Same (do a.intersection (← a.union b)) (.ok a)
  union_absorbs : Same (do a.union (← a.intersection b)) (.ok a)
  union_complement : Same (a.union a.complement) (.ok (full extent))
  intersection_complement : Same (a.intersection a.complement) (.ok (empty extent))
  len_complement : a.len + a.complement.len = extent
  len_union_intersection :
    ∃ u v, a.union b = .ok u ∧ a.intersection b = .ok v ∧ u.len + v.len = a.len + b.len

/-- Each law holds of single bits. -/
theorem booleanLaws {extent : Nat} {a b c : BitSet} (ha : a.extent = extent)
    (hb : b.extent = extent) (hc : c.extent = extent) : BooleanLaws extent a b c := by
  -- each law is an identity of truth values, tested at a single number
  let x : Term extent := .of a ha
  let y : Term extent := .of b hb
  let z : Term extent := .of c hc
  have hdouble := Term.same_of_holds (.complement (.complement x)) x fun _ => Bool.not_not _
  exact {
    complement_complement := by
      obtain ⟨u, v, hu, hv, hbeq⟩ := hdouble
      cases hu
      cases hv
      exact hbeq
    complement_intersection :=
      Term.same_of_holds (.complement (.intersection x y))
        (.union (.complement x) (.complement y)) fun _ => Bool.not_and _ _
    complement_union :=
      Term.same_of_holds (.complement (.union x y))
        (.intersection (.complement x) (.complement y)) fun _ => Bool.not_or _ _
    intersection_comm :=
      Term.same_of_holds (.intersection x y) (.intersection y x) fun _ => Bool.and_comm _ _
    union_comm := Term.same_of_holds (.union x y) (.union y x) fun _ => Bool.or_comm _ _
    intersection_assoc :=
      Term.same_of_holds (.intersection (.intersection x y) z)
        (.intersection x (.intersection y z)) fun _ => Bool.and_assoc _ _ _
    union_assoc :=
      Term.same_of_holds (.union (.union x y) z) (.union x (.union y z))
        fun _ => Bool.or_assoc _ _ _
    intersection_union :=
      Term.same_of_holds (.intersection x (.union y z))
        (.union (.intersection x y) (.intersection x z)) fun _ => Bool.and_or_distrib_left _ _ _
    union_intersection :=
      Term.same_of_holds (.union x (.intersection y z))
        (.intersection (.union x y) (.union x z)) fun _ => Bool.or_and_distrib_left _ _ _
    intersection_absorbs :=
      Term.same_of_holds (.intersection x (.union x y)) x fun _ => inf_sup_self
    union_absorbs :=
      Term.same_of_holds (.union x (.intersection x y)) x fun _ => sup_inf_self
    union_complement :=
      Term.same_of_holds (.union x (.complement x)) .full fun _ => Bool.or_not_self _
    intersection_complement :=
      Term.same_of_holds (.intersection x (.complement x)) .empty fun _ => Bool.and_not_self _
    len_complement := by rw [len_add_len_complement, ha]
    len_union_intersection := len_union_add_len_intersection (ha.trans hb.symm) }

/-- **Bit sets are canonical.** They are just the sets that come about by calls. Two of them are
equal exactly when they have the same universe and the same members, in whatever way each came
about. So on every universe the laws of Boolean algebra hold as equalities of bit sets, and lengths
count members. -/
theorem canonical_and_boolean :
    (∀ s : BitSet, ∃ calls, (operations.performAll [] calls).1 = [s]) ∧
    (∀ s t : BitSet, (s == t) = true ↔
      s.extent = t.extent ∧ ∀ i, s.contains i = t.contains i) ∧
    ∀ (extent : Nat) (a b c : BitSet), a.extent = extent → b.extent = extent →
      c.extent = extent → BooleanLaws extent a b c :=
  ⟨exists_history, fun _ _ => beq_iff, fun _ _ _ _ => booleanLaws⟩

/-- The numbers below `65` in a universe of `66`, which reach one bit into the second word, as they
are added one by one. -/
def builtUp : BitSet := ((empty 66).extend (List.range 65)).1

/-- The same numbers, as the last number of the universe is taken out. -/
def cutDown : BitSet := ((full 66).remove 65).2

theorem canonical_and_boolean_builtUp :
    (builtUp == cutDown) = true ∧ builtUp.extent = 66 ∧ cutDown.extent = 66 ∧
      (builtUp.complement.complement == cutDown) = true ∧
      Same (builtUp.union cutDown.complement) (.ok (full 66)) ∧
      cutDown.len + cutDown.complement.len = 66 := by
  obtain ⟨_, hbeq, hlaws⟩ := canonical_and_boolean
  have hmembers : ∀ i, i < 66 → builtUp.contains i = cutDown.contains i := by decide +kernel
  have hequal : (builtUp == cutDown) = true := by
    refine (hbeq builtUp cutDown).mpr ⟨rfl, fun i => ?_⟩
    by_cases hi : i < 66
    · exact hmembers i hi
    · have hle : 66 ≤ i := Nat.le_of_not_lt hi
      rw [contains_eq_false (s := builtUp) hle, contains_eq_false (s := cutDown) hle]
  have hsame : builtUp = cutDown := eq_of_beq hequal
  have hall := hlaws 66 cutDown cutDown cutDown rfl rfl rfl
  refine ⟨hequal, rfl, rfl, ?_, ?_, hall.len_complement⟩
  · rw [hsame]
    exact hall.complement_complement
  · rw [hsame]
    exact hall.union_complement

end Automata.BitSet
