/-!
# Bits in words

A bit set is stored in 64-bit words, lowest bit of the first word first. This file reads and
writes single bits of words and of word arrays. `Words.bit` is the view through which everything
else is understood: each operation has one lemma saying which bits its result has.
-/

namespace Automata.Words

/-- The number of words that hold `extent` bits. -/
def count (extent : Nat) : Nat := (extent + 63) / 64

/-- The word whose only bit is bit `k`, for `k` below 64. -/
def single (k : Nat) : UInt64 := 1 <<< k.toUInt64

/-- Whether a word has bit `k`, for `k` below 64. -/
def holds (w : UInt64) (k : Nat) : Bool := w &&& single k != 0

/-- How many bits a word has. -/
def population (w : UInt64) : Nat := (List.range 64).countP (holds w)

/-- The lowest bit of a word. -/
def lowest? (w : UInt64) : Option Nat := (List.range 64).find? (holds w)

/-- Whether bit `i` is set, counting through the words; past the last word no bit is. -/
def bit (words : Array UInt64) (i : Nat) : Bool :=
  match words[i / 64]? with
  | some w => holds w (i % 64)
  | none => false

/-- Sets bit `i`, if there is a word for it. -/
def setBit (words : Array UInt64) (i : Nat) : Array UInt64 :=
  words.modify (i / 64) (· ||| single (i % 64))

/-- Clears bit `i`, if there is a word for it. -/
def clearBit (words : Array UInt64) (i : Nat) : Array UInt64 :=
  words.modify (i / 64) (· &&& ~~~ single (i % 64))

/-- Clears the bits from `extent` on in the word that `extent` falls into. -/
def clearTail (extent : Nat) (words : Array UInt64) : Array UInt64 :=
  if extent % 64 = 0 then words
  else words.modify (extent / 64) (· &&& (single (extent % 64) - 1))

/-! ## Single words -/

/-- The word with one bit is a power of two. -/
theorem toNat_single {k : Nat} (hk : k < 64) : (single k).toNat = 1 <<< k := by
  have hk' : k.toUInt64.toNat % 64 = k := by
    simp only [Nat.toUInt64_eq, UInt64.toNat_ofNat']
    omega
  rw [single, UInt64.toNat_shiftLeft, hk']
  show 1 <<< k % 2 ^ 64 = 1 <<< k
  rw [Nat.one_shiftLeft, Nat.mod_eq_of_lt (Nat.pow_lt_pow_right (by omega) hk)]

/-- Whether a word holds a bit is a question about the number it stands for. -/
theorem holds_eq_testBit (w : UInt64) {k : Nat} (hk : k < 64) :
    holds w k = w.toNat.testBit k := by
  have hand : ∀ j, (w.toNat &&& 2 ^ k).testBit j = (w.toNat.testBit j && decide (k = j)) :=
    fun j => by rw [Nat.testBit_and, Nat.testBit_two_pow]
  have hzero : (w &&& single k != 0) = ((w.toNat &&& 2 ^ k) != 0) := by
    rw [← Nat.one_shiftLeft, ← toNat_single hk, ← UInt64.toNat_and, Bool.eq_iff_iff]
    simp only [bne_iff_ne, ne_eq]
    rw [← UInt64.toNat_inj]
    rfl
  rw [holds, hzero]
  cases hbit : w.toNat.testBit k with
  | true =>
    have hk1 := hand k
    rw [hbit] at hk1
    simp only [bne_iff_ne, ne_eq]
    intro h
    rw [h, Nat.zero_testBit] at hk1
    simp at hk1
  | false =>
    have : w.toNat &&& 2 ^ k = 0 := by
      apply Nat.eq_of_testBit_eq
      intro j
      rw [hand j, Nat.zero_testBit]
      by_cases h : k = j
      · rw [← h, hbit]; rfl
      · rw [decide_eq_false h, Bool.and_false]
    rw [this]; rfl

/-- The words of two sets are combined bit by bit. -/
theorem holds_and (v w : UInt64) {k : Nat} (hk : k < 64) :
    holds (v &&& w) k = (holds v k && holds w k) := by
  simp only [holds_eq_testBit _ hk, UInt64.toNat_and, Nat.testBit_and]

theorem holds_or (v w : UInt64) {k : Nat} (hk : k < 64) :
    holds (v ||| w) k = (holds v k || holds w k) := by
  simp only [holds_eq_testBit _ hk, UInt64.toNat_or, Nat.testBit_or]

/-- The bits of a word are all turned over, those of the tail among them. -/
theorem holds_not (w : UInt64) {k : Nat} (hk : k < 64) : holds (~~~ w) k = !holds w k := by
  have hw := w.toNat_lt
  have hsub : (~~~ w).toNat = 2 ^ 64 - (w.toNat + 1) := by
    rw [UInt64.toNat_not]
    show 2 ^ 64 - 1 - w.toNat = 2 ^ 64 - (w.toNat + 1)
    omega
  rw [holds_eq_testBit _ hk, holds_eq_testBit _ hk, hsub, Nat.testBit_two_pow_sub_succ hw,
    decide_eq_true hk, Bool.true_and]

/-- A word with one bit holds no other. -/
theorem holds_single {j k : Nat} (hj : j < 64) (hk : k < 64) :
    holds (single j) k = decide (j = k) := by
  rw [holds_eq_testBit _ hk, toNat_single hj, Nat.one_shiftLeft, Nat.testBit_two_pow]

/-- The word `single j - 1` has the bits below `j`. -/
theorem holds_single_sub_one {j k : Nat} (hj : j < 64) (hk : k < 64) :
    holds (single j - 1) k = decide (k < j) := by
  have hone : (1 : UInt64) ≤ single j := by
    rw [UInt64.le_iff_toNat_le, toNat_single hj, Nat.one_shiftLeft]
    exact Nat.one_le_two_pow
  rw [holds_eq_testBit _ hk, UInt64.toNat_sub_of_le _ _ hone, toNat_single hj, Nat.one_shiftLeft]
  exact Nat.testBit_two_pow_sub_one j k

/-- Two words with the same bits are equal. -/
theorem eq_of_holds {v w : UInt64} (h : ∀ k, k < 64 → holds v k = holds w k) : v = w := by
  rw [← UInt64.toNat_inj]
  apply Nat.eq_of_testBit_eq
  intro k
  by_cases hk : k < 64
  · rw [← holds_eq_testBit v hk, ← holds_eq_testBit w hk, h k hk]
  · have hpow : 2 ^ 64 ≤ 2 ^ k := Nat.pow_le_pow_right (by omega) (by omega)
    rw [Nat.testBit_lt_two_pow (Nat.lt_of_lt_of_le v.toNat_lt hpow),
      Nat.testBit_lt_two_pow (Nat.lt_of_lt_of_le w.toNat_lt hpow)]

/-! ## Arrays of words -/

theorem mod_lt (i : Nat) : i % 64 < 64 := Nat.mod_lt i (by decide)

/-- Beyond the words there are no bits. -/
theorem bit_eq_false_of_size_le {words : Array UInt64} {i : Nat} (h : words.size ≤ i / 64) :
    bit words i = false := by
  rw [bit, Array.getElem?_eq_none h]

@[simp] theorem size_setBit (words : Array UInt64) (i : Nat) :
    (setBit words i).size = words.size := Array.size_modify

@[simp] theorem size_clearBit (words : Array UInt64) (i : Nat) :
    (clearBit words i).size = words.size := Array.size_modify

@[simp] theorem size_clearTail (extent : Nat) (words : Array UInt64) :
    (clearTail extent words).size = words.size := by
  unfold clearTail
  split
  · rfl
  · exact Array.size_modify

/-- Setting a bit leaves the others as they are. -/
theorem bit_setBit {words : Array UInt64} {i : Nat} (hi : i / 64 < words.size) (j : Nat) :
    bit (setBit words i) j = (decide (i = j) || bit words j) := by
  unfold bit setBit
  rw [Array.getElem?_modify]
  by_cases hw : i / 64 = j / 64
  · rw [if_pos hw, ← hw, Array.getElem?_eq_getElem hi]
    show holds (words[i / 64] ||| single (i % 64)) (j % 64) = _
    rw [holds_or _ _ (mod_lt j), holds_single (mod_lt i) (mod_lt j), Bool.or_comm]
    congr 1
    exact decide_eq_decide.2 ⟨fun h => by omega, fun h => by omega⟩
  · rw [if_neg hw, decide_eq_false (by omega : ¬ i = j), Bool.false_or]

/-- Clearing a bit leaves the others as they are. -/
theorem bit_clearBit (words : Array UInt64) (i j : Nat) :
    bit (clearBit words i) j = (!decide (i = j) && bit words j) := by
  unfold bit clearBit
  rw [Array.getElem?_modify]
  by_cases hw : i / 64 = j / 64
  · rw [if_pos hw]
    cases words[j / 64]? with
    | none => exact (Bool.and_false _).symm
    | some w =>
      show holds (w &&& ~~~ single (i % 64)) (j % 64) = _
      rw [holds_and _ _ (mod_lt j), holds_not _ (mod_lt j), holds_single (mod_lt i) (mod_lt j),
        Bool.and_comm]
      congr 2
      exact decide_eq_decide.2 ⟨fun h => by omega, fun h => by omega⟩
  · rw [if_neg hw, decide_eq_false (by omega : ¬ i = j), Bool.not_false, Bool.true_and]

/-- Clearing the tail takes away the bits from the extent on and no others. -/
theorem bit_clearTail {extent : Nat} {words : Array UInt64} (hsize : words.size = count extent)
    (i : Nat) : bit (clearTail extent words) i = (decide (i < extent) && bit words i) := by
  unfold clearTail
  unfold count at hsize
  by_cases hlt : i < extent
  · rw [decide_eq_true hlt, Bool.true_and]
    split
    · rfl
    · unfold bit
      rw [Array.getElem?_modify]
      by_cases hw : extent / 64 = i / 64
      · rw [if_pos hw, Array.getElem?_eq_getElem (by omega)]
        show holds (words[i / 64] &&& (single (extent % 64) - 1)) (i % 64) = _
        rw [holds_and _ _ (mod_lt i), holds_single_sub_one (mod_lt extent) (mod_lt i),
          decide_eq_true (by omega : i % 64 < extent % 64), Bool.and_true]
      · rw [if_neg hw]
  · rw [decide_eq_false hlt, Bool.false_and]
    split
    · exact bit_eq_false_of_size_le (by omega)
    · by_cases hw : extent / 64 = i / 64
      · unfold bit
        rw [Array.getElem?_modify, if_pos hw, Array.getElem?_eq_getElem (by omega)]
        show holds (words[i / 64] &&& (single (extent % 64) - 1)) (i % 64) = _
        rw [holds_and _ _ (mod_lt i), holds_single_sub_one (mod_lt extent) (mod_lt i),
          decide_eq_false (by omega : ¬ i % 64 < extent % 64), Bool.and_false]
      · exact bit_eq_false_of_size_le (by rw [Array.size_modify]; omega)

/-- Words that are zero hold no bits. -/
theorem bit_replicate_zero (n i : Nat) : bit (Array.replicate n 0) i = false := by
  unfold bit
  rw [Array.getElem?_replicate]
  split
  next w h =>
    split at h
    · have : w = 0 := by simpa using h.symm
      rw [this, holds_eq_testBit _ (mod_lt i)]
      exact Nat.zero_testBit _
    · simp at h
  next => rfl

/-- Where there is a word, each bit is turned over. -/
theorem bit_map_not {words : Array UInt64} {i : Nat} (hi : i / 64 < words.size) :
    bit (words.map (~~~ ·)) i = !bit words i := by
  unfold bit
  rw [Array.getElem?_map, Array.getElem?_eq_getElem hi]
  exact holds_not _ (mod_lt i)

theorem bit_zipWith_and (u v : Array UInt64) (i : Nat) :
    bit (Array.zipWith (· &&& ·) u v) i = (bit u i && bit v i) := by
  unfold bit
  rw [Array.getElem?_zipWith]
  cases u[i / 64]? with
  | none => rfl
  | some a =>
    cases v[i / 64]? with
    | none => exact (Bool.and_false _).symm
    | some b => exact holds_and a b (mod_lt i)

/-- Both sides need as many words, as beyond the shorter one bits would be lost. -/
theorem bit_zipWith_or {u v : Array UInt64} (h : u.size = v.size) (i : Nat) :
    bit (Array.zipWith (· ||| ·) u v) i = (bit u i || bit v i) := by
  unfold bit
  rw [Array.getElem?_zipWith]
  by_cases hi : i / 64 < u.size
  · rw [Array.getElem?_eq_getElem hi, Array.getElem?_eq_getElem (h ▸ hi)]
    exact holds_or _ _ (mod_lt i)
  · rw [Array.getElem?_eq_none (by omega), Array.getElem?_eq_none (by omega)]
    rfl

end Automata.Words
