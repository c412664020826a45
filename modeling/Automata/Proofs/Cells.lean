import Mathlib.Data.Set.Function
import Automata.Proofs.Numbering

/-!
# Row-major numbers within 64 bits

The number of a cell is computed in indices of 64 bits, so it may not exist: the column may lie
outside the row, the product may overflow, or only the sum. `NumbersCells` says which of the three
happens when, and that nothing else can go wrong: a number that was computed is the right one, and
taking an index apart never leads to a cell without a number, however close to the limit it is.

The last point needs no bound on the width. A quotient times the width is no larger than the index
it was taken from, so neither the product nor the sum can reach the limit. Grids are then numbered
without gaps, for a cell lies in the grid exactly when its number lies below the number of cells.

> `cells_numbered_row_by_row`: pairs and the cells of tables are numbered this way.
-/

namespace Automata

/-- `f` gives the cell in row `a` and column `b` of a grid of width `w` its row-major number, unless
the cell or its number does not exist. -/
structure NumbersCells (f : Nat → Nat → Nat → Checked Nat) : Prop where
  /-- There is a number for a column within the width, if it is an index. -/
  eq_ok_iff : ∀ a b w i, f a b w = .ok i ↔ b < w ∧ a * w + b < indexLimit ∧ i = a * w + b
  /-- Otherwise a column beyond the width is reported before all else, then the product, and the sum
  where the product is an index. -/
  eq_error_iff : ∀ a b w fault, f a b w = .error fault ↔
    (w ≤ b ∧ fault = .secondBeyondWidth b w) ∨
      (b < w ∧ indexLimit ≤ a * w ∧ fault = .multiplyOverflow) ∨
      b < w ∧ a * w < indexLimit ∧ indexLimit ≤ a * w + b ∧ fault = .addOverflow
  /-- A number leads back to its cell. -/
  unpair_of_eq_ok : ∀ a b w i, f a b w = .ok i → unpairIndex i w = .ok (a, b)
  /-- Every index is the number of a cell, whatever the width is. -/
  eq_ok_of_unpair : ∀ i w, i < indexLimit → w ≠ 0 →
    ∃ a b, unpairIndex i w = .ok (a, b) ∧ f a b w = .ok i
  /-- The cells of a grid are numbered without gaps. -/
  bijOn : ∀ h w, h * w < indexLimit →
    Set.BijOn (fun cell : Nat × Nat => f cell.1 cell.2 w) {cell | cell.1 < h ∧ cell.2 < w}
      (Except.ok '' {i | i < h * w})

/-- What can become of a pair: the column is tested first, then the product, then the sum. -/
theorem pairIndex_cases (a b w : Nat) :
    (w ≤ b ∧ pairIndex a b w = .error (.secondBeyondWidth b w)) ∨
      (b < w ∧ indexLimit ≤ a * w ∧ pairIndex a b w = .error .multiplyOverflow) ∨
      (b < w ∧ a * w < indexLimit ∧ indexLimit ≤ a * w + b ∧
        pairIndex a b w = .error .addOverflow) ∨
      b < w ∧ a * w + b < indexLimit ∧ pairIndex a b w = .ok (a * w + b) := by
  unfold pairIndex
  by_cases hb : b < w
  · rw [if_pos hb]
    by_cases hproduct : a * w < indexLimit
    · rw [if_pos hproduct]
      by_cases hsum : a * w + b < indexLimit
      · exact Or.inr (Or.inr (Or.inr ⟨hb, hsum, if_pos hsum⟩))
      · exact Or.inr (Or.inr (Or.inl ⟨hb, hproduct, Nat.not_lt.mp hsum, if_neg hsum⟩))
    · exact Or.inr (Or.inl ⟨hb, Nat.not_lt.mp hproduct, if_neg hproduct⟩)
  · exact Or.inl ⟨Nat.not_lt.mp hb, if_neg hb⟩

theorem pairIndex_eq_ok_iff {a b w i : Nat} :
    pairIndex a b w = .ok i ↔ b < w ∧ a * w + b < indexLimit ∧ i = a * w + b := by
  rcases pairIndex_cases a b w with ⟨hb, h⟩ | ⟨_, hproduct, h⟩ | ⟨_, _, hsum, h⟩ | ⟨hb, hsum, h⟩
  · exact iff_of_false (h ▸ nofun) (by omega)
  · exact iff_of_false (h ▸ nofun) (by omega)
  · exact iff_of_false (h ▸ nofun) (by omega)
  · rw [h, Except.ok.injEq, and_iff_right hb, and_iff_right hsum, eq_comm]

/-- Which of the three faults a pair meets. -/
theorem pairIndex_eq_error_iff {a b w : Nat} {fault : Fault} :
    pairIndex a b w = .error fault ↔
      (w ≤ b ∧ fault = .secondBeyondWidth b w) ∨
        (b < w ∧ indexLimit ≤ a * w ∧ fault = .multiplyOverflow) ∨
        b < w ∧ a * w < indexLimit ∧ indexLimit ≤ a * w + b ∧ fault = .addOverflow := by
  rcases pairIndex_cases a b w with ⟨hb, h⟩ | ⟨hb, hproduct, h⟩ | ⟨hb, hproduct, hsum, h⟩ |
    ⟨hb, hsum, h⟩
  · simp [h, hb, Nat.not_lt.mpr hb, eq_comm]
  · simp [h, hb, hproduct, Nat.not_le.mpr hb, Nat.not_lt.mpr hproduct, eq_comm]
  · simp [h, hb, hproduct, hsum, Nat.not_le.mpr hb, Nat.not_le.mpr hproduct, eq_comm]
  · have hproduct : a * w < indexLimit := by omega
    simp [h, hsum, Nat.not_le.mpr hb, Nat.not_le.mpr hproduct]

/-- Taking an index apart gives a cell that has this number. -/
theorem pairIndex_div_mod {i w : Nat} (hi : i < indexLimit) (hw : w ≠ 0) :
    pairIndex (i / w) (i % w) w = .ok i := by
  have hcell : i / w * w + i % w = i := Nat.div_add_mod' i w
  exact pairIndex_eq_ok_iff.mpr
    ⟨Nat.mod_lt i (Nat.pos_of_ne_zero hw), by rwa [hcell], hcell.symm⟩

/-- The cells of a grid have the numbers below the number of cells, each cell its own. -/
theorem bijOn_pairIndex {h w : Nat} (hfits : h * w < indexLimit) :
    Set.BijOn (fun cell : Nat × Nat => pairIndex cell.1 cell.2 w)
      {cell | cell.1 < h ∧ cell.2 < w} (Except.ok '' {i | i < h * w}) := by
  refine ⟨fun cell hcell => ?_, fun cell hcell cell' hcell' hsame => ?_, fun x hx => ?_⟩
  · exact ⟨_, cell_lt hcell.1 hcell.2, (pairIndex_eq hcell.1 hcell.2 hfits).symm⟩
  · -- the number that the two cells share leads back to either
    have hnumber := pairIndex_eq hcell.1 hcell.2 hfits
    have hnumber' := hsame.symm.trans hnumber
    obtain ⟨_, _, heq⟩ := pairIndex_eq_ok_iff.mp hnumber'
    have hback : unpairIndex (cell.1 * w + cell.2) w = .ok cell := unpairIndex_eq hcell.2
    have hback' : unpairIndex (cell'.1 * w + cell'.2) w = .ok cell' := unpairIndex_eq hcell'.2
    rw [heq, hback'] at hback
    exact (Except.ok.inj hback).symm
  · obtain ⟨i, hi, rfl⟩ := hx
    have hi : i < h * w := hi
    have hw : 0 < w := Nat.pos_of_lt_mul_left hi
    have hrow : i / w < h := Nat.div_lt_of_lt_mul (by rwa [Nat.mul_comm])
    exact ⟨(i / w, i % w), ⟨hrow, Nat.mod_lt i hw⟩,
      pairIndex_div_mod (Nat.lt_trans hi hfits) (Nat.ne_of_gt hw)⟩

theorem numbersCells_pairIndex : NumbersCells pairIndex where
  eq_ok_iff _ _ _ _ := pairIndex_eq_ok_iff
  eq_error_iff _ _ _ _ := pairIndex_eq_error_iff
  unpair_of_eq_ok a b w i h := by
    obtain ⟨hb, _, rfl⟩ := pairIndex_eq_ok_iff.mp h
    exact unpairIndex_eq hb
  eq_ok_of_unpair i w hi hw := ⟨i / w, i % w, if_neg hw, pairIndex_div_mod hi hw⟩
  bijOn _ _ hfits := bijOn_pairIndex hfits

/-- **Cells are numbered row by row.** A pair has a number exactly when its second component lies
below the width and the row-major number is an index. Otherwise the fault is the first of these: the
second component is out of range, whatever the first one is; the product overflows; the sum does.
The number of a pair leads back to the pair, every index is the number of the pair that it is taken
apart into, for every width but zero, and the pairs of a grid have all the numbers below the number
of its cells, each pair its own. The cells of a table are numbered in the same way. -/
theorem cells_numbered_row_by_row : NumbersCells pairIndex ∧ NumbersCells cellIndex :=
  ⟨numbersCells_pairIndex, numbersCells_pairIndex⟩

/-- The last cell of the largest square grid has the largest index, the next row overflows in the
product, and a row of more than half of all indices in the sum. The largest index is taken apart
into digits and put together again. -/
theorem cells_numbered_row_by_row_atLimit :
    pairIndex 4294967295 4294967295 4294967296 = .ok 18446744073709551615 ∧
      cellIndex 4294967296 0 4294967296 = .error .multiplyOverflow ∧
      pairIndex 1 9223372036854775808 9223372036854775809 = .error .addOverflow ∧
      pairIndex 18446744073709551615 7 7 = .error (.secondBeyondWidth 7 7) ∧
      ∃ a b, unpairIndex 18446744073709551615 10 = .ok (a, b) ∧
        cellIndex a b 10 = .ok 18446744073709551615 := by
  obtain ⟨hpairs, hcells⟩ := cells_numbered_row_by_row
  exact ⟨(hpairs.eq_ok_iff _ _ _ _).mpr (by decide),
    (hcells.eq_error_iff _ _ _ _).mpr (by decide),
    (hpairs.eq_error_iff _ _ _ _).mpr (by decide),
    (hpairs.eq_error_iff _ _ _ _).mpr (by decide),
    hcells.eq_ok_of_unpair _ _ (by decide) (by decide)⟩

end Automata
