import Mathlib.Data.List.ProdSigma
import Mathlib.Data.List.Sort
import Automata.Proofs.Tables

/-!
# Pairs row by row

Two nested loops come to the pairs of their values row by row: `RowBefore` is the order in which
they do. The list of all pairs that they come to (`vs ×ˢ ws`) is in this order when each loop goes
through its values in the order of their numbers, and the pair of two values of whole types stands
at the row-major number of the pair. What is listed in a strict order is known from its members
(`eq_of_ordered`), so there is only one way to list a set.
-/

namespace Automata

section Order

variable {α β : Type} [Indexed α] [Indexed β]

/-- The pair comes before the other one row by row: in an earlier row, or earlier in its row. -/
def RowBefore (p p' : α × β) : Prop :=
  number p.1 < number p'.1 ∨ p.1 = p'.1 ∧ number p.2 < number p'.2

/-- A product of two ordered lists is in row order. -/
theorem pairwise_product {vs : List α} {ws : List β}
    (hvs : vs.Pairwise fun v w => number v < number w)
    (hws : ws.Pairwise fun v w => number v < number w) : (vs ×ˢ ws).Pairwise RowBefore := by
  show (vs.flatMap fun v => ws.map (Prod.mk v)).Pairwise RowBefore
  rw [List.pairwise_flatMap]
  refine ⟨fun v _ => ?_, hvs.imp fun hlt p hp p' hp' => ?_⟩
  · exact List.pairwise_map.mpr (hws.imp fun hlt => Or.inr ⟨rfl, hlt⟩)
  · obtain ⟨_, _, rfl⟩ := List.mem_map.mp hp
    obtain ⟨_, _, rfl⟩ := List.mem_map.mp hp'
    exact Or.inl hlt

/-- Lists of values in the order of their numbers are equal when they have the same members. -/
theorem eq_of_ordered {vs ws : List α} (hvs : vs.Pairwise fun v w => number v < number w)
    (hws : ws.Pairwise fun v w => number v < number w) (h : ∀ v, v ∈ vs ↔ v ∈ ws) : vs = ws := by
  have : Std.Asymm fun v w : α => number v < number w := ⟨fun _ _ => Nat.lt_asymm⟩
  exact hvs.eq_of_mem_iff hws h

end Order

section Pairs

variable {α β : Type} [Indexed α] [Indexed β] [LawfulIndexed α] [LawfulIndexed β]

theorem length_values_product :
    (values α ×ˢ values β).length = Indexed.count α * Indexed.count β := by
  rw [List.length_product, length_values, length_values]

/-- Among all pairs, a pair stands at its row-major number. -/
theorem getElem?_values_product (a : α) (b : β) :
    (values α ×ˢ values β)[number a * Indexed.count β + number b]? = some (a, b) := by
  show ((values α).flatMap fun v => (values β).map (Prod.mk v))[_]? = _
  rw [getElem?_flatMap _ (fun _ _ => Table.length_map_values _) _ _ (number_lt b),
    getElem?_values, Option.bind_some, List.getElem?_map, getElem?_values, Option.map_some]

/-- As long as the pairs have numbers, their order is that of the rows. -/
theorem number_lt_iff_rowBefore (hfits : Indexed.count (α × β) < indexLimit) (p p' : α × β) :
    number p < number p' ↔ RowBefore p p' := by
  rw [RowBefore, ← number_inj (v := p.1)]
  exact number_pair_lt_iff hfits p.1 p'.1 p.2 p'.2

end Pairs

end Automata
