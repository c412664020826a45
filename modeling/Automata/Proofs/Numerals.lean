import Automata.Demo.Divisibility
import Automata.Proofs.Shortlex

/-!
# Binary numerals

A word over the two bits is a numeral with its most significant bit first: reading one more bit
doubles the number and adds the bit. Zeros in front do not matter, so a number has many numerals,
and `binary` gives the one that no zero stands in front of.

> `shortlexLe_of_le_value`: the numeral of a positive number is the first word, in the shortlex
> order, of those that stand for this number or a larger one.

The induction takes the last bits off, as both the numeral and the order of words are made by
appending symbols.
-/

namespace Automata.Numeral

open Demo.Divisibility (binary)

/-- The number that a word stands for. -/
def value (word : List Bool) : Nat := word.foldl (fun n bit => 2 * n + bit.toNat) 0

/-- A bit as it is written. -/
def digit (bit : Bool) : Char := if bit then '1' else '0'

/-- A bit behind a numeral doubles its value and is added to it. -/
theorem value_concat (word : List Bool) (bit : Bool) :
    value (word ++ [bit]) = 2 * value word + bit.toNat := by
  rw [value, value, List.foldl_append]
  rfl

theorem binary_of_lt {n : Nat} (h : n < 2) : binary n = [n == 1] := by
  rw [binary, if_pos h]

/-- The numeral of a number of two digits or more ends in its lowest bit. -/
theorem binary_of_le {n : Nat} (h : 2 ≤ n) : binary n = binary (n / 2) ++ [n % 2 == 1] := by
  rw [binary, if_neg (Nat.not_lt.mpr h)]

theorem toNat_lowest (n : Nat) : (n % 2 == 1).toNat = n % 2 := by
  rcases Nat.mod_two_eq_zero_or_one n with h | h <;> rw [h] <;> rfl

/-- The numeral of a number stands for it. -/
theorem value_binary (n : Nat) : value (binary n) = n := by
  induction n using Demo.Divisibility.binary.induct with
  | case1 n h =>
    rw [binary_of_lt h]
    obtain rfl | rfl : n = 0 ∨ n = 1 := by omega
    · rfl
    · rfl
  | case2 n h ih =>
    rw [binary_of_le (Nat.not_lt.mp h), value_concat, ih, toNat_lowest]
    exact Nat.div_add_mod n 2

/-- The bits of the numeral are the binary digits of the number. -/
theorem map_digit_binary (n : Nat) : (binary n).map digit = Nat.toDigits 2 n := by
  induction n using Demo.Divisibility.binary.induct with
  | case1 n h =>
    rw [binary_of_lt h]
    obtain rfl | rfl : n = 0 ∨ n = 1 := by omega
    · rfl
    · rfl
  | case2 n h ih =>
    have hdigit : [digit (n % 2 == 1)] = Nat.toDigits 2 (n % 2) := by
      rcases Nat.mod_two_eq_zero_or_one n with h | h <;> rw [h] <;> rfl
    rw [binary_of_le (Nat.not_lt.mp h), List.map_append, ih, List.map_singleton, hdigit,
      Nat.toDigits_append_toDigits Nat.one_lt_two (by omega) (Nat.mod_lt n Nat.two_pos),
      Nat.div_add_mod]

/-- A word that stands for a positive number has a last bit. -/
theorem exists_concat {word : List Bool} (h : 0 < value word) :
    ∃ front bit, word = front ++ [bit] := by
  have hne : word ≠ [] := by
    rintro rfl
    exact absurd h (Nat.lt_irrefl 0)
  exact ⟨_, _, (List.dropLast_concat_getLast hne).symm⟩

/-- Behind one front, words come in the order of their last bits. -/
theorem shortlexLe_concat (front : List Bool) {s t : Bool} (h : s.toNat ≤ t.toNat) :
    ShortlexLe (front ++ [s]) (front ++ [t]) := by
  cases s with
  | false =>
    cases t with
    | false => exact ShortlexLe.refl _
    | true => exact Or.inr (Shortlex.concat_of_number_lt front (by decide))
  | true =>
    cases t with
    | false => exact absurd h (by decide)
    | true => exact ShortlexLe.refl _

/-- The numeral of a positive number comes first among the words that stand for this number or a
larger one. -/
theorem shortlexLe_of_le_value {n : Nat} (hpos : 0 < n) : ∀ {word : List Bool}, n ≤ value word →
    ShortlexLe (binary n) word := by
  induction n using Demo.Divisibility.binary.induct with
  | case1 n h =>
    intro word hle
    obtain rfl : n = 1 := by omega
    obtain ⟨front, bit, rfl⟩ := exists_concat hle
    have hone : binary 1 = [true] := binary_of_lt (by decide)
    rw [hone]
    cases front with
    | nil =>
      cases bit with
      | false => exact absurd hle (by decide)
      | true => exact ShortlexLe.refl [true]
    | cons s front =>
      -- a longer word comes later in any case
      refine Or.inr (Or.inl ?_)
      rw [List.length_append, List.length_cons]
      exact Nat.lt_add_of_pos_left (Nat.succ_pos _)
  | case2 n h ih =>
    intro word hle
    obtain ⟨front, bit, rfl⟩ := exists_concat (Nat.lt_of_lt_of_le hpos hle)
    have hbit : bit.toNat < 2 := bit.toNat_lt
    rw [value_concat] at hle
    rw [binary_of_le (Nat.not_lt.mp h)]
    have hfront : n / 2 ≤ value front := by omega
    rcases ih (by omega) hfront with heq | hlt
    · -- the fronts are one, so the word's last bit cannot be the smaller one
      have hvalue : value front = n / 2 := by rw [← heq, value_binary]
      rw [heq]
      refine shortlexLe_concat front ?_
      rw [toNat_lowest]
      omega
    · exact Or.inr (hlt.concat _ _)

end Automata.Numeral
