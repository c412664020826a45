import Automata.Shape
import Automata.Proofs.Numbering

/-!
# Numberings of nested pairs

Shapes are built from the basic types by forming pairs to any depth, so the number of a value is a
row-major number of row-major numbers, each of them computed in 64 bits. `ExactlyNumbered` says of
such a numbering that nothing is wrong with it: it is a bijection between the values and the numbers
below the count, every other number is refused, and it keeps the order of the values, in which
pairs are compared by their first components and only then by their second. There is no more than
one such numbering.

> `value_exactlyNumbered`: the values of every shape are exactly numbered, if each pair type that
> the shape is built from has so few values that their number is an index.

The induction is on the shape. What a pair adds is in the lemmas on row-major numbers:
`LawfulIndexed.pair`, `number_pair_lt_iff`. A pair type without values needs no exception, for a
pair looks at its own count before it divides by the count of a component.
-/

namespace Automata

/-- The numbering is a bijection between the values and the numbers below the count, it refuses all
other numbers, and it keeps the order. -/
structure ExactlyNumbered (α : Type) [Indexed α] (precedes : α → α → Prop) : Prop where
  /-- Every value has a number, which lies below the count. -/
  index_ok : ∀ v : α, ∃ i, index v = .ok i ∧ i < Indexed.count α
  /-- The number of a value leads back to the value. -/
  ofIndex_index : ∀ (v : α) i, index v = .ok i → ofIndex i = .ok v
  /-- Every number below the count is the number of a value. -/
  index_ofIndex : ∀ i, i < Indexed.count α → ∃ v : α, ofIndex i = .ok v ∧ index v = .ok i
  /-- No other number has a value. -/
  fails_ofIndex : ∀ i, Indexed.count α ≤ i → Fails (ofIndex i : Checked α)
  /-- The list of all values has each of them once, in the order of their numbers. -/
  all_ok : ∃ vs, Indexed.all α = .ok vs ∧ (∀ v, v ∈ vs) ∧ vs.Nodup ∧
    vs.mapM index = .ok (List.range (Indexed.count α))
  /-- The smaller of two numbers is that of the earlier value. -/
  index_lt_iff : ∀ (v w : α) i j, index v = .ok i → index w = .ok j → (i < j ↔ precedes v w)

/-- What is left to show of a lawful numbering: where it ends, and in which order it goes. -/
theorem LawfulIndexed.exactlyNumbered {α : Type} [Indexed α] [LawfulIndexed α]
    {precedes : α → α → Prop}
    (hend : ∀ i, Indexed.count α ≤ i → Fails (ofIndex i : Checked α))
    (horder : ∀ v w : α, number v < number w ↔ precedes v w) : ExactlyNumbered α precedes where
  index_ok v := ⟨number v, index_eq v, number_lt v⟩
  ofIndex_index v i hi := by
    rw [← number_of_index hi]
    exact ofIndex_number v
  index_ofIndex := LawfulIndexed.ofIndex_ok
  fails_ofIndex := hend
  all_ok := by
    refine ⟨values α, all_eq α, mem_values, nodup_values, ?_⟩
    rw [mapM_eq_ok (values α) fun v _ => index_eq v, map_number_values]
  index_lt_iff v w i j hi hj := by
    rw [← number_of_index hi, ← number_of_index hj]
    exact horder v w

namespace Shape

/-- Each pair type that the shape is built from has so few values that their number is an index. -/
def Fits : Shape → Prop
  | .pair a b => a.Fits ∧ b.Fits ∧ Indexed.count (Shape.pair a b).Value < indexLimit
  | _ => True

/-- The order of the values: that of the basic types, and of two pairs the one with the earlier
first component or, where these are the same, with the earlier second component. -/
def Precedes : (s : Shape) → s.Value → s.Value → Prop
  | .unit, _, _ => False
  | .bool, v, w => v = false ∧ w = true
  | .byte, v, w => UInt8.toNat v < UInt8.toNat w
  | .fin n, v, w => Fin.val (n := n) v < Fin.val (n := n) w
  | .enumeration _, v, w => v.position < w.position
  | .pair a b, v, w => a.Precedes v.1 w.1 ∨ v.1 = w.1 ∧ b.Precedes v.2 w.2

/-- The induction is on the shape, with pairs as its only step. -/
theorem lawful_value : ∀ (s : Shape), s.Fits → LawfulIndexed s.Value := by
  intro s
  induction s with
  | unit => intro _; exact inferInstanceAs (LawfulIndexed Unit)
  | bool => intro _; exact inferInstanceAs (LawfulIndexed Bool)
  | byte => intro _; exact inferInstanceAs (LawfulIndexed UInt8)
  | fin n => intro _; exact inferInstanceAs (LawfulIndexed (Fin n))
  | enumeration e => intro _; exact inferInstanceAs (LawfulIndexed e.Variant)
  | pair a b iha ihb =>
    intro h
    have := iha h.1
    have := ihb h.2.1
    exact LawfulIndexed.pair (α := a.Value) (β := b.Value) h.2.2

/-- A number from the count on is refused, whether the numbers of the shape are indices or not. -/
theorem fails_ofIndex : ∀ (s : Shape) (i : Nat), Indexed.count s.Value ≤ i →
    Fails (ofIndex i : Checked s.Value) := by
  intro s i hi
  cases s with
  | unit => exact ⟨_, if_neg (show ¬i = 0 from Nat.ne_of_gt hi)⟩
  | bool => exact ⟨_, if_neg (Nat.not_lt.mpr hi)⟩
  | byte => exact ⟨_, if_neg (Nat.not_lt.mpr hi)⟩
  | fin n => exact ⟨_, dif_neg (Nat.not_lt.mpr hi)⟩
  | enumeration e => exact ⟨_, dif_neg (Nat.not_lt.mpr hi)⟩
  | pair a b => exact ⟨_, if_neg (Nat.not_lt.mpr hi)⟩

/-- Values are numbered in their order. -/
theorem number_lt_iff : ∀ (s : Shape), s.Fits → ∀ v w : s.Value,
    number v < number w ↔ s.Precedes v w := by
  intro s
  induction s with
  | unit => intro _ v w; exact iff_of_false (Nat.lt_irrefl 0) id
  | bool =>
    intro _ v w
    have horder : ∀ x y : Bool, x.toNat < y.toNat ↔ x = false ∧ y = true := by decide
    exact horder v w
  | byte => intro _ v w; exact Iff.rfl
  | fin n => intro _ v w; exact Iff.rfl
  | enumeration e => intro _ v w; exact Iff.rfl
  | pair a b iha ihb =>
    intro h v w
    have := lawful_value a h.1
    have := lawful_value b h.2.1
    have hpair := number_pair_lt_iff (α := a.Value) (β := b.Value) h.2.2 v.1 w.1 v.2 w.2
    rw [iha h.1, ihb h.2.1, number_inj] at hpair
    exact hpair

/-- **Nested pairs are numbered exactly.** If each pair type that a shape is built from has so few
values that their number is an index, the values of the shape are numbered in both directions
without an overflow, in their order, each with its own number below the count, and no number from
the count on is taken for one of theirs. -/
theorem value_exactlyNumbered (s : Shape) (h : s.Fits) : ExactlyNumbered s.Value s.Precedes :=
  have := lawful_value s h
  LawfulIndexed.exactlyNumbered (fails_ofIndex s) (number_lt_iff s h)

/-- The lights on the two roads of a crossing, with the time left and the state of a detector. -/
def crossing : Shape :=
  let light := .enumeration ⟨"Light", #["Red", "Yellow", "Green"]⟩
  .pair (.pair light (.pair .unit light)) (.pair .byte (.pair .bool (.fin 3)))

theorem value_exactlyNumbered_crossing :
    crossing.Fits ∧ ExactlyNumbered crossing.Value crossing.Precedes ∧
      Indexed.count crossing.Value = 13824 ∧
      index (α := crossing.Value) ((⟨1⟩, ((), ⟨2⟩)), ((255 : UInt8), (true, (1 : Fin 3)))) =
        .ok 9214 ∧
      Fails (ofIndex 13824 : Checked crossing.Value) := by
  have hfits : crossing.Fits := by
    refine ⟨⟨trivial, ⟨trivial, trivial, ?_⟩, ?_⟩, ⟨trivial, ⟨trivial, trivial, ?_⟩, ?_⟩, ?_⟩ <;>
      decide
  have hexact := value_exactlyNumbered crossing hfits
  have hcount : Indexed.count crossing.Value = 13824 := by decide
  refine ⟨hfits, hexact, hcount, ?_, hexact.fails_ofIndex 13824 (Nat.le_of_eq hcount)⟩
  -- the value has some number, and it can be computed which
  obtain ⟨i, hi, _⟩ := hexact.index_ok ((⟨1⟩, ((), ⟨2⟩)), ((255 : UInt8), (true, (1 : Fin 3))))
  rw [hi, ← number_of_index hi, Except.ok.injEq]
  decide +kernel

end Shape

end Automata
