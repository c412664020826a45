import Automata.Proofs.Numbering

/-!
# Shortlex order of words

Shorter words come first, and words of one length are compared like numerals whose digits are the
numbers of the symbols. It is the order in which a breadth-first search comes to the words: a symbol
appended to an earlier word gives an earlier word than any symbol appended to a later one
(`Shortlex.concat`), and behind one word the symbols decide (`Shortlex.concat_of_number_lt`).
-/

namespace Automata

variable {S : Type} [Indexed S]

/-- The word `u` comes before the word `v`: it is shorter, or as long and smaller in the
lexicographic order of the symbols' numbers. -/
def Shortlex (u v : List S) : Prop :=
  u.length < v.length ∨ u.length = v.length ∧ u.map number < v.map number

/-- The word `u` is `v` or comes before it. -/
def ShortlexLe (u v : List S) : Prop := u = v ∨ Shortlex u v

namespace Shortlex

/-- No word comes before itself. -/
theorem irrefl (u : List S) : ¬Shortlex u u := by
  intro h
  rcases h with h | ⟨_, h⟩
  · exact Nat.lt_irrefl _ h
  · exact List.lt_irrefl _ h

/-- Lengths are compared first and symbols second, so both comparisons have to be followed
through. -/
theorem trans {u v w : List S} (huv : Shortlex u v) (hvw : Shortlex v w) : Shortlex u w := by
  rcases huv with huv | ⟨huv, hlex⟩
  · rcases hvw with hvw | ⟨hvw, _⟩
    · exact Or.inl (Nat.lt_trans huv hvw)
    · exact Or.inl (hvw ▸ huv)
  · rcases hvw with hvw | ⟨hvw, hlex'⟩
    · exact Or.inl (huv ▸ hvw)
    · exact Or.inr ⟨huv.trans hvw, List.lt_trans hlex hlex'⟩

/-- The empty word comes before all others. -/
theorem nil_concat (u : List S) (s : S) : Shortlex [] (u ++ [s]) := by
  refine Or.inl ?_
  rw [List.length_append]
  exact Nat.succ_pos _

/-- Every word comes before the longer ones that begin with it. -/
theorem self_concat (u : List S) (s : S) : Shortlex u (u ++ [s]) := by
  refine Or.inl ?_
  rw [List.length_append]
  exact Nat.lt_succ_self _

/-- The lexicographic order of two lists of one length is decided within them, so what is appended
does not matter. -/
theorem concat_lt_concat : ∀ {k l : List Nat}, k.length = l.length → k < l → ∀ (i j : Nat),
    k ++ [i] < l ++ [j] := by
  intro k
  induction k with
  | nil =>
    intro l hlen hlt
    rw [List.length_eq_zero_iff.mp hlen.symm] at hlt
    exact absurd hlt (List.not_lt_nil _)
  | cons a k ih =>
    intro l hlen hlt i j
    cases l with
    | nil => exact absurd hlt (List.not_lt_nil _)
    | cons b l =>
      rw [List.cons_append, List.cons_append, List.cons_lt_cons_iff]
      -- the first place where the lists differ lies within both of them
      rcases List.cons_lt_cons_iff.mp hlt with hab | ⟨hab, hkl⟩
      · exact Or.inl hab
      · exact Or.inr ⟨hab, ih (Nat.succ.inj hlen) hkl i j⟩

/-- Appending symbols keeps the order of two words, whatever the symbols are. -/
theorem concat {u v : List S} (h : Shortlex u v) (s t : S) : Shortlex (u ++ [s]) (v ++ [t]) := by
  rcases h with h | ⟨hlen, h⟩
  · refine Or.inl ?_
    rw [List.length_append, List.length_append]
    exact Nat.succ_lt_succ h
  · refine Or.inr ⟨?_, ?_⟩
    · rw [List.length_append, List.length_append, hlen]
      rfl
    · rw [List.map_append, List.map_append]
      exact concat_lt_concat (by rw [List.length_map, List.length_map, hlen]) h _ _

/-- Behind one word the appended symbols decide. -/
theorem concat_of_number_lt (u : List S) {s t : S} (h : number s < number t) :
    Shortlex (u ++ [s]) (u ++ [t]) := by
  refine Or.inr ⟨?_, ?_⟩
  · rw [List.length_append, List.length_append]
    rfl
  · rw [List.map_append, List.map_append]
    exact List.append_left_lt (List.cons_lt_cons_iff.mpr (Or.inl h))

end Shortlex

/-- An earlier word is not longer. -/
theorem Shortlex.length_le {u v : List S} (h : Shortlex u v) : u.length ≤ v.length := by
  rcases h with h | ⟨h, _⟩
  · exact Nat.le_of_lt h
  · exact Nat.le_of_eq h

/-- A word that comes before one of two words in order also comes before the other. -/
theorem Shortlex.trans_le {u v w : List S} (huv : Shortlex u v) (hvw : ShortlexLe v w) :
    Shortlex u w := by
  rcases hvw with rfl | hvw
  · exact huv
  · exact huv.trans hvw

namespace ShortlexLe

theorem refl (u : List S) : ShortlexLe u u := Or.inl rfl

theorem trans_lt {u v w : List S} (huv : ShortlexLe u v) (hvw : Shortlex v w) : Shortlex u w := by
  rcases huv with rfl | huv
  · exact hvw
  · exact huv.trans hvw

theorem trans {u v w : List S} (huv : ShortlexLe u v) (hvw : ShortlexLe v w) :
    ShortlexLe u w := by
  rcases huv with rfl | huv
  · exact hvw
  · exact Or.inr (huv.trans_le hvw)

theorem concat {u v : List S} (h : ShortlexLe u v) (s : S) : ShortlexLe (u ++ [s]) (v ++ [s]) := by
  rcases h with rfl | h
  · exact refl _
  · exact Or.inr (h.concat s s)

/-- Of two words only one can come before the other. -/
theorem not_lt {u v : List S} (h : ShortlexLe u v) : ¬Shortlex v u := fun hlt =>
  Shortlex.irrefl u (trans_lt h hlt)

/-- Two words neither of which comes before the other are the same. So there is one first word of a
language at most. -/
theorem antisymm {u v : List S} (huv : ShortlexLe u v) (hvu : ShortlexLe v u) : u = v := by
  rcases huv with heq | hlt
  · exact heq
  · exact absurd hlt hvu.not_lt

theorem length_le {u v : List S} (h : ShortlexLe u v) : u.length ≤ v.length := by
  rcases h with rfl | h
  · exact Nat.le_refl _
  · exact h.length_le

end ShortlexLe

end Automata
