import Automata.Indexed
import Automata.Proofs.Checked

/-!
# Lawful numberings

The alphabets and state spaces of automata are numbered, and everything that is keyed by a number
rests on the numbering being a bijection between the values of a type and the numbers below its
count. `LawfulIndexed` says so. The basic types have lawful numberings, and a pair of lawful types
has one as long as the number of pairs is an index itself: then no product and no sum of the
row-major numbering overflows.
-/

namespace Automata

/-- The numbering is a bijection between the values and the numbers below `count`. -/
class LawfulIndexed (α : Type) [Indexed α] : Prop where
  /-- Every value has a number below the count, and is the value with that number. -/
  index_ok : ∀ v : α, ∃ i, index v = .ok i ∧ i < Indexed.count α ∧ ofIndex i = .ok v
  /-- Every number below the count is the number of a value. -/
  ofIndex_ok : ∀ i, i < Indexed.count α → ∃ v : α, ofIndex i = .ok v ∧ index v = .ok i

section Number

variable {α : Type} [Indexed α]

/-- The number of a value, where the numbering gives one. -/
def number (v : α) : Nat :=
  match index v with
  | .ok i => i
  | .error _ => 0

theorem number_of_index {v : α} {i : Nat} (h : index v = .ok i) : number v = i := by
  rw [number, h]

variable [LawfulIndexed α]

theorem index_eq (v : α) : index v = .ok (number v) := by
  obtain ⟨i, hi, _⟩ := LawfulIndexed.index_ok v
  rw [number_of_index hi, hi]

theorem number_lt (v : α) : number v < Indexed.count α := by
  obtain ⟨i, hi, hlt, _⟩ := LawfulIndexed.index_ok v
  rw [number_of_index hi]
  exact hlt

@[simp] theorem ofIndex_number (v : α) : ofIndex (number v) = .ok v := by
  obtain ⟨i, hi, _, hv⟩ := LawfulIndexed.index_ok v
  rw [number_of_index hi]
  exact hv

/-- A number names at most one value. -/
theorem number_inj {v w : α} : number v = number w ↔ v = w := by
  constructor
  · intro h
    have hv := ofIndex_number v
    rw [h, ofIndex_number w] at hv
    cases hv
    rfl
  · rintro rfl
    rfl

/-- Every number below the count is the number of a value. -/
theorem exists_number {i : Nat} (h : i < Indexed.count α) :
    ∃ v : α, ofIndex i = .ok v ∧ number v = i := by
  obtain ⟨v, hv, hi⟩ := LawfulIndexed.ofIndex_ok (α := α) i h
  exact ⟨v, hv, number_of_index hi⟩

end Number

/-! ## All values in order -/

section Values

variable (α : Type) [Indexed α]

/-- The values in the order of their numbers. -/
def values : List α :=
  match Indexed.all α with
  | .ok vs => vs
  | .error _ => []

variable [LawfulIndexed α]

/-- Counting through the numbers lists the values in order. -/
theorem all_eq_and_map_number :
    Indexed.all α = .ok (values α) ∧ (values α).map number = List.range (Indexed.count α) := by
  have hmap := mapM_ok_map (f := (ofIndex : Nat → Checked α)) (g := number) (h := id)
    (List.range (Indexed.count α)) fun i hi => exists_number (List.mem_range.1 hi)
  obtain ⟨vs, hvs, hnum⟩ := hmap
  rw [List.map_id] at hnum
  have hval : values α = vs := by rw [values, Indexed.all, hvs]
  rw [hval]
  exact ⟨hvs, hnum⟩

/-- Listing the values never meets a fault. -/
theorem all_eq : Indexed.all α = .ok (values α) := (all_eq_and_map_number α).1

/-- The values are listed by their numbers. -/
theorem map_number_values : (values α).map number = List.range (Indexed.count α) :=
  (all_eq_and_map_number α).2

theorem length_values : (values α).length = Indexed.count α := by
  have h := congrArg List.length (map_number_values α)
  rwa [List.length_map, List.length_range] at h

variable {α}

/-- Every value is listed, -/
@[simp] theorem mem_values (v : α) : v ∈ values α := by
  have h : number v ∈ (values α).map number := by
    rw [map_number_values]
    exact List.mem_range.2 (number_lt v)
  obtain ⟨w, hw, heq⟩ := List.mem_map.1 h
  rwa [number_inj.1 heq] at hw

/-- The values are listed in strictly increasing order. -/
theorem pairwise_values : (values α).Pairwise fun v w => number v < number w := by
  have h : ((values α).map number).Pairwise (· < ·) := by
    rw [map_number_values]
    exact List.pairwise_lt_range
  exact List.pairwise_map.1 h

/-- and none twice. -/
theorem nodup_values : (values α).Nodup :=
  pairwise_values.imp fun hlt heq => by
    rw [heq] at hlt
    exact Nat.lt_irrefl _ hlt

/-- The value listed at a position is the one with that number. -/
theorem getElem?_values (v : α) : (values α)[number v]? = some v := by
  have hlt : number v < (values α).length := by
    rw [length_values]
    exact number_lt v
  have hnum : ((values α).map number)[number v]? = some (number v) := by
    rw [map_number_values, List.getElem?_range (number_lt v)]
  rw [List.getElem?_map, List.getElem?_eq_getElem hlt] at hnum
  rw [List.getElem?_eq_getElem hlt, number_inj.1 (Option.some.inj hnum)]

/-- From every number on, the values left are the one with that number and those behind it. -/
theorem drop_values {i : Nat} (h : i < Indexed.count α) :
    ∃ v : α, ofIndex i = .ok v ∧ (values α).drop i = v :: (values α).drop (i + 1) := by
  obtain ⟨v, hv, rfl⟩ := exists_number h
  have hlt : number v < (values α).length := by rwa [length_values]
  refine ⟨v, hv, ?_⟩
  have hget := getElem?_values v
  rw [List.getElem?_eq_getElem hlt] at hget
  rw [List.drop_eq_getElem_cons hlt, Option.some.inj hget]

/-- A search through all values finds the one with the least number. -/
theorem find?_values {p : α → Bool} {v : α}
    (h : (values α).find? p = some v) :
    p v = true ∧ ∀ w, p w = true → number v ≤ number w := by
  obtain ⟨hv, before, after, heq, hbefore⟩ := List.find?_eq_some_iff_append.mp h
  refine ⟨hv, fun w hw => ?_⟩
  have hpairwise := pairwise_values (α := α)
  have hmem := mem_values w
  rw [heq] at hpairwise hmem
  rcases List.mem_append.mp hmem with hmem | hmem
  · have hnot := hbefore w hmem
    rw [hw] at hnot
    cases hnot
  · rcases List.mem_cons.mp hmem with rfl | hmem
    · exact Nat.le_refl _
    · have hlt := (List.pairwise_cons.mp (List.pairwise_append.mp hpairwise).2.1).1 w hmem
      exact Nat.le_of_lt hlt

end Values

/-! ## The basic types -/

instance : LawfulIndexed Unit where
  index_ok _ := ⟨0, rfl, Nat.one_pos, rfl⟩
  ofIndex_ok i hi := by
    obtain rfl : i = 0 := Nat.lt_one_iff.1 hi
    exact ⟨(), rfl, rfl⟩

instance : LawfulIndexed Bool where
  index_ok b := by cases b <;> exact ⟨_, rfl, by decide, rfl⟩
  ofIndex_ok i hi := by
    match i, hi with
    | 0, _ => exact ⟨false, rfl, rfl⟩
    | 1, _ => exact ⟨true, rfl, rfl⟩

instance : LawfulIndexed UInt8 where
  index_ok b := by
    have hb := b.toNat_lt
    refine ⟨b.toNat, rfl, hb, ?_⟩
    show (if b.toNat < 256 then _ else _) = _
    rw [if_pos hb, UInt8.ofNat_toNat]
  ofIndex_ok i hi := by
    have hi : i < 256 := hi
    refine ⟨UInt8.ofNat i, if_pos hi, ?_⟩
    show Except.ok (UInt8.ofNat i).toNat = _
    rw [UInt8.toNat_ofNat_of_lt' hi]

instance (n : Nat) : LawfulIndexed (Fin n) where
  index_ok v := ⟨v.val, rfl, v.isLt, dif_pos v.isLt⟩
  ofIndex_ok i hi := ⟨⟨i, hi⟩, dif_pos hi, rfl⟩

instance (e : Enumeration) : LawfulIndexed e.Variant where
  index_ok v := ⟨v.position.val, rfl, v.position.isLt, dif_pos v.position.isLt⟩
  ofIndex_ok i hi := ⟨⟨i, hi⟩, dif_pos hi, rfl⟩

/-! ## Pairs -/

section Pairs

variable {α β : Type} [Indexed α] [Indexed β]

/-- A row ends where the next one begins, or before. -/
theorem row_le {first height : Nat} (h : first < height) (width : Nat) :
    first * width + width ≤ height * width := by
  rw [← Nat.succ_mul]
  exact Nat.mul_le_mul_right width h

/-- A cell has a number below the number of cells. -/
theorem cell_lt {first second height width : Nat} (hfirst : first < height)
    (hsecond : second < width) : first * width + second < height * width := by
  have hrow := row_le hfirst width
  omega

/-- A cell within a grid of less than `indexLimit` cells has a number, the row-major one. -/
theorem pairIndex_eq {first second height width : Nat} (hfirst : first < height)
    (hsecond : second < width) (hfits : height * width < indexLimit) :
    pairIndex first second width = .ok (first * width + second) := by
  have hcell := cell_lt hfirst hsecond
  rw [pairIndex, if_pos hsecond, if_pos (by omega), if_pos (by omega)]

/-- The number of a cell leads back to the cell. -/
theorem unpairIndex_eq {first second width : Nat} (hsecond : second < width) :
    unpairIndex (first * width + second) width = .ok (first, second) := by
  have hpos : 0 < width := Nat.zero_lt_of_lt hsecond
  have hdiv : (first * width + second) / width = first := by
    rw [Nat.mul_comm, Nat.mul_add_div hpos, Nat.div_eq_of_lt hsecond, Nat.add_zero]
  have hmod : (first * width + second) % width = second := by
    rw [Nat.mul_comm, Nat.mul_add_mod, Nat.mod_eq_of_lt hsecond]
  rw [unpairIndex, if_neg (Nat.ne_of_gt hpos), hdiv, hmod]

variable [LawfulIndexed α] [LawfulIndexed β]

/-- A pair has the number of its cell. -/
theorem index_pair (hfits : Indexed.count (α × β) < indexLimit) (a : α) (b : β) :
    index (a, b) = .ok (number a * Indexed.count β + number b) := by
  have hpair : index (a, b) = (do pairIndex (← index a) (← index b) (Indexed.count β)) := rfl
  rw [hpair, index_eq, index_eq]
  exact pairIndex_eq (number_lt a) (number_lt b) hfits

theorem number_pair (hfits : Indexed.count (α × β) < indexLimit) (a : α) (b : β) :
    number (a, b) = number a * Indexed.count β + number b :=
  number_of_index (index_pair hfits a b)

/-- Pairs are numbered in the lexicographic order of the numbers of their components. -/
theorem number_pair_lt_iff (hfits : Indexed.count (α × β) < indexLimit) (a a' : α) (b b' : β) :
    number (a, b) < number (a', b') ↔
      number a < number a' ∨ number a = number a' ∧ number b < number b' := by
  have hb := number_lt b
  have hb' := number_lt b'
  rw [number_pair hfits, number_pair hfits]
  rcases Nat.lt_trichotomy (number a) (number a') with hlt | heq | hgt
  · -- the rows differ, and a column never reaches into the next row
    have hrow := row_le hlt (Indexed.count β)
    omega
  · rw [heq]
    omega
  · have hrow := row_le hgt (Indexed.count β)
    omega

/-- The number of a cell leads back to the pair. -/
theorem ofIndex_pair (a : α) (b : β) :
    ofIndex (number a * Indexed.count β + number b) = .ok (a, b) := by
  have hlt : number a * Indexed.count β + number b < Indexed.count α * Indexed.count β :=
    cell_lt (number_lt a) (number_lt b)
  show (if number a * Indexed.count β + number b < Indexed.count α * Indexed.count β
    then _ else _) = _
  rw [if_pos hlt, unpairIndex_eq (number_lt b)]
  show (do return (← ofIndex (number a), ← ofIndex (number b))) = _
  rw [ofIndex_number, ofIndex_number]
  rfl

/-- Every number below the product of the counts is the row-major number of a pair. -/
theorem exists_cell {i : Nat} (h : i < Indexed.count α * Indexed.count β) :
    ∃ (a : α) (b : β), number a * Indexed.count β + number b = i := by
  have hpos : 0 < Indexed.count β := Nat.pos_of_lt_mul_left h
  obtain ⟨a, _, ha⟩ := exists_number (α := α) (Nat.div_lt_of_lt_mul (by rwa [Nat.mul_comm] at h))
  obtain ⟨b, _, hb⟩ := exists_number (α := β) (Nat.mod_lt i hpos)
  refine ⟨a, b, ?_⟩
  rw [ha, hb, Nat.mul_comm]
  exact Nat.div_add_mod i (Indexed.count β)

/-- Pairs of lawful types are lawfully numbered, as long as their number is an index. -/
theorem LawfulIndexed.pair (hfits : Indexed.count (α × β) < indexLimit) :
    LawfulIndexed (α × β) where
  index_ok := by
    rintro ⟨a, b⟩
    exact ⟨_, index_pair hfits a b, cell_lt (number_lt a) (number_lt b), ofIndex_pair a b⟩
  ofIndex_ok := by
    intro i hi
    obtain ⟨a, b, rfl⟩ := exists_cell hi
    exact ⟨(a, b), ofIndex_pair a b, index_pair hfits a b⟩

end Pairs

end Automata
