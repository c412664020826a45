import Automata.StateSet
import Automata.Proofs.Members
import Automata.Proofs.Numbering

/-!
# State sets as sets

Over a lawful numbering every operation on state sets gives an answer: a state always has a number,
the number always lies in the universe, and the universe is always the number of states. So a state
set is a set of states in the plain sense, read through `∈`, and each operation has one lemma that
says which states its result holds. Two sets with the same states are equal as data.
-/

namespace Automata.StateSet

variable {Q M : Type} [Indexed Q] [Indexed M]

instance : Membership Q (StateSet Q) := ⟨fun s q => s.bits.contains (number q) = true⟩

instance (q : Q) (s : StateSet Q) : Decidable (q ∈ s) :=
  inferInstanceAs (Decidable (s.bits.contains (number q) = true))

theorem mem_def {q : Q} {s : StateSet Q} : q ∈ s ↔ s.bits.contains (number q) = true := Iff.rfl

theorem decide_mem (q : Q) (s : StateSet Q) :
    decide (q ∈ s) = s.bits.contains (number q) := Bool.decide_eq_true

/-- Bits over the right universe make a set of states. -/
theorem ofBits_eq_ok {bits : BitSet} (h : bits.extent = Indexed.count Q) :
    (ofBits bits : Checked (StateSet Q)) = .ok ⟨bits, h⟩ := dif_pos h

@[simp] theorem not_mem_empty (q : Q) : q ∉ (empty : StateSet Q) := by
  rw [mem_def]
  show ¬(BitSet.empty (Indexed.count Q)).contains (number q) = true
  rw [BitSet.contains_empty]
  exact Bool.false_ne_true

/-- Two sets of states are over one universe, so there is always a union, -/
theorem union_eq_ok (s t : StateSet Q) :
    ∃ u, s.union t = .ok u ∧ ∀ q, q ∈ u ↔ q ∈ s ∨ q ∈ t := by
  obtain ⟨bits, hunion, hextent, hbits⟩ :=
    BitSet.union_eq_ok (s.extent_bits.trans t.extent_bits.symm)
  refine ⟨⟨bits, hextent.trans s.extent_bits⟩, ?_, fun q => ?_⟩
  · rw [union, hunion]
    exact ofBits_eq_ok _
  · show bits.contains (number q) = true ↔ _
    rw [hbits, Bool.or_eq_true]
    rfl

/-- and an intersection. -/
theorem intersection_eq_ok (s t : StateSet Q) :
    ∃ u, s.intersection t = .ok u ∧ ∀ q, q ∈ u ↔ q ∈ s ∧ q ∈ t := by
  obtain ⟨bits, hintersection, hextent, hbits⟩ :=
    BitSet.intersection_eq_ok (s.extent_bits.trans t.extent_bits.symm)
  refine ⟨⟨bits, hextent.trans s.extent_bits⟩, ?_, fun q => ?_⟩
  · rw [intersection, hintersection]
    exact ofBits_eq_ok _
  · show bits.contains (number q) = true ↔ _
    rw [hbits, Bool.and_eq_true]
    rfl

section Lawful

variable [LawfulIndexed Q] [LawfulIndexed M]

theorem mem_full (q : Q) : q ∈ (full : StateSet Q) := BitSet.contains_full (number_lt q)

/-- Membership is always answered, as every state has a number. -/
theorem contains_eq (s : StateSet Q) (q : Q) : s.contains q = .ok (decide (q ∈ s)) := by
  rw [contains, index_eq]
  exact congrArg Except.ok (decide_mem q s).symm

/-- State sets with the same states are equal. -/
theorem ext {s t : StateSet Q} (h : ∀ q, q ∈ s ↔ q ∈ t) : s = t := by
  have hbits : s.bits = t.bits := by
    refine BitSet.ext (s.extent_bits.trans t.extent_bits.symm) fun i hi => ?_
    obtain ⟨q, _, hq⟩ := exists_number (α := Q) (s.extent_bits ▸ hi)
    rw [← hq, Bool.eq_iff_iff]
    exact h q
  obtain ⟨b, hb⟩ := s
  obtain ⟨c, hc⟩ := t
  obtain rfl : b = c := hbits
  rfl

/-- Adding a state adds it and nothing else, and tells whether it was missing. -/
theorem insert_eq_ok (s : StateSet Q) (q : Q) :
    ∃ t, s.insert q = .ok (decide (q ∉ s), t) ∧ ∀ r, r ∈ t ↔ r = q ∨ r ∈ s := by
  have hlt : number q < s.bits.extent := by
    rw [s.extent_bits]
    exact number_lt q
  obtain ⟨bits, hins, hextent, hbits⟩ := BitSet.insert_eq_ok hlt
  refine ⟨⟨bits, hextent.trans s.extent_bits⟩, ?_, fun r => ?_⟩
  · have hfresh : decide (q ∉ s) = !s.bits.contains (number q) := by
      rw [decide_not, decide_mem]
    rw [insert, index_eq]
    show (s.bits.insert (number q) >>= _) = _
    rw [hins]
    show (ofBits bits >>= _) = _
    rw [ofBits_eq_ok (hextent.trans s.extent_bits), hfresh]
    rfl
  · show bits.contains (number r) = true ↔ _
    rw [hbits, Bool.or_eq_true, decide_eq_true_eq, number_inj]
    exact or_congr eq_comm Iff.rfl

/-- Removing a state removes it and nothing else, and tells whether it was there. -/
theorem remove_eq_ok (s : StateSet Q) (q : Q) :
    ∃ t, s.remove q = .ok (decide (q ∈ s), t) ∧ ∀ r, r ∈ t ↔ r ≠ q ∧ r ∈ s := by
  have hextent : (s.bits.remove (number q)).2.extent = Indexed.count Q := s.extent_bits
  refine ⟨⟨(s.bits.remove (number q)).2, hextent⟩, ?_, fun r => ?_⟩
  · rw [remove, index_eq, decide_mem]
    show (ofBits (s.bits.remove (number q)).2 >>= _) = _
    rw [ofBits_eq_ok hextent]
    rfl
  · show (s.bits.remove (number q)).2.contains (number r) = true ↔ _
    rw [BitSet.contains_remove, Bool.and_eq_true, Bool.not_eq_true', decide_eq_false_iff_not,
      number_inj]
    exact and_congr_left' (not_congr eq_comm)

/-- Adding states adds them and nothing else. -/
theorem extend_eq : ∀ (states : List Q) (s : StateSet Q),
    ∃ t, s.extend states = (t, none) ∧ ∀ r, r ∈ t ↔ r ∈ states ∨ r ∈ s := by
  intro states
  induction states with
  | nil =>
    intro s
    exact ⟨s, rfl, fun r => by simp⟩
  | cons q rest ih =>
    intro s
    obtain ⟨t, hins, ht⟩ := insert_eq_ok s q
    obtain ⟨u, hext, hu⟩ := ih t
    refine ⟨u, ?_, fun r => ?_⟩
    · rw [extend, hins]
      exact hext
    · rw [hu, ht, List.mem_cons]
      exact ⟨fun h => h.elim (fun h => .inl (.inr h)) fun h => h.imp .inl id,
        fun h => h.elim (fun h => h.elim (fun h => .inr (.inl h)) .inl) fun h => .inr (.inr h)⟩

/-- Every list of states is the list of the states of a set. -/
theorem ofList_eq_ok (states : List Q) :
    ∃ t, ofList states = .ok t ∧ ∀ r, r ∈ t ↔ r ∈ states := by
  obtain ⟨t, hext, ht⟩ := extend_eq states empty
  refine ⟨t, by rw [ofList, hext], fun r => ?_⟩
  rw [ht]
  simp

/-- Asking a predicate about every state finds the states that satisfy it. -/
theorem ofPredicate_eq_ok (p : Q → Bool) :
    ∃ t, ofPredicate p = .ok t ∧ ∀ r, r ∈ t ↔ p r = true := by
  obtain ⟨t, ht, hmem⟩ := ofList_eq_ok ((values Q).filter p)
  refine ⟨t, ?_, fun r => ?_⟩
  · rw [ofPredicate, all_eq, ok_bind, ht]
  · rw [hmem, List.mem_filter, and_iff_right (mem_values r)]

/-- The complement holds the other states. -/
theorem mem_complement {s : StateSet Q} {q : Q} : q ∈ s.complement ↔ q ∉ s := by
  have hlt : number q < s.bits.extent := by
    rw [s.extent_bits]
    exact number_lt q
  rw [mem_def, mem_def]
  show s.bits.complement.contains (number q) = true ↔ _
  rw [BitSet.contains_complement hlt, Bool.not_eq_true', Bool.not_eq_true]

theorem intersects_iff {s t : StateSet Q} : s.intersects t = true ↔ ∃ q, q ∈ s ∧ q ∈ t := by
  rw [intersects, BitSet.intersects_iff]
  constructor
  · intro h
    obtain ⟨i, hs, ht⟩ := h
    -- a member lies in the universe, so it is the number of a state
    have hlt : i < Indexed.count Q := by
      rw [← s.extent_bits]
      refine Nat.lt_of_not_le fun hle => ?_
      rw [BitSet.contains_eq_false hle] at hs
      cases hs
    obtain ⟨q, _, rfl⟩ := exists_number hlt
    exact ⟨q, hs, ht⟩
  · intro h
    obtain ⟨q, hs, ht⟩ := h
    exact ⟨number q, hs, ht⟩

/-- The numbers in the bit set are those of the states in the set. -/
theorem toList_bits (s : StateSet Q) :
    s.bits.toList = ((values Q).filter (· ∈ s)).map number := by
  rw [BitSet.toList_eq, s.extent_bits, ← map_number_values, List.filter_map]
  refine congrArg (List.map number) (List.filter_congr fun q _ => ?_)
  exact (decide_mem q s).symm

/-- The length of a set is the number of its states. -/
theorem len_eq (s : StateSet Q) : s.len = ((values Q).filter (· ∈ s)).length := by
  rw [len, BitSet.len_eq, ← BitSet.toList_eq, toList_bits, List.length_map]

/-- The states of a set are listed in the order of their numbers. -/
theorem toList_eq_ok (s : StateSet Q) : s.toList = .ok ((values Q).filter (· ∈ s)) := by
  -- the listed numbers are those of states, so each is read back without a fault
  rw [toList, toList_bits, List.mapM_map]
  exact (mapM_eq_ok (g := id) _ fun q _ => ofIndex_number q).trans (by rw [List.map_id])

/-- The product of two sets holds exactly the pairs of their states. -/
theorem product_eq_ok (hfits : Indexed.count (Q × M) < indexLimit) (s : StateSet Q)
    (t : StateSet M) : ∃ u, s.product t = .ok u ∧ ∀ q m, (q, m) ∈ u ↔ q ∈ s ∧ m ∈ t := by
  have := LawfulIndexed.pair hfits
  obtain ⟨u, hlist, hu⟩ := ofList_eq_ok
    (((values Q).filter (· ∈ s)).flatMap fun q => ((values M).filter (· ∈ t)).map fun m => (q, m))
  refine ⟨u, ?_, fun q m => ?_⟩
  · rw [product, toList_eq_ok, toList_eq_ok]
    exact hlist
  · rw [hu]
    simp [List.mem_flatMap]

end Lawful

end Automata.StateSet
