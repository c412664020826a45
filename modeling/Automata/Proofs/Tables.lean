import Automata.Table.Basic
import Automata.Proofs.Numbering

/-!
# What a table holds

A table that is made from a transition function holds the successors row by row, so the successor
of a pair stands at the row-major number of the pair. `graph` is this table. Narrowing the numbers
to 32 bits loses nothing, and reading them back gives the values of the function: `get_graph`. Both
evaluating the function (`ofFunction_eq`) and reading its values as numbers (`ofIndices_eq`) make
the graph, and every table that is made in one of these ways is a graph (`ofFunction_eq_graph`,
`ofIndices_eq_ok`). When some pair meets a fault the table is not made: `fails_ofFunction`.
-/

namespace Automata

/-- In a list of rows of one width, the entry at `row * width + column` is entry `column` of row
`row`. -/
theorem getElem?_flatMap {α β : Type} {f : α → List β} {width : Nat} :
    ∀ (l : List α), (∀ a ∈ l, (f a).length = width) → ∀ (row column : Nat), column < width →
      (l.flatMap f)[row * width + column]? = l[row]?.bind fun a => (f a)[column]? := by
  intro l
  induction l with
  | nil => intro _ row column _; rfl
  | cons a l ih =>
    intro hwidth row column hcolumn
    have ha : (f a).length = width := hwidth a (List.mem_cons_self ..)
    rw [List.flatMap_cons]
    cases row with
    | zero =>
      -- the cell lies in the first row
      rw [Nat.zero_mul, Nat.zero_add, List.getElem?_append_left (by rw [ha]; exact hcolumn)]
      rfl
    | succ row =>
      -- behind the first row the count starts again
      have hsub : (row + 1) * width + column - width = row * width + column := by
        rw [Nat.succ_mul]
        omega
      have hle : width ≤ (row + 1) * width + column := by
        rw [Nat.succ_mul]
        omega
      rw [List.getElem?_append_right (by rw [ha]; exact hle), ha, hsub,
        ih (fun b hb => hwidth b (List.mem_cons_of_mem _ hb)) row column hcolumn]
      rfl

theorem length_flatMap {α β : Type} {f : α → List β} {width : Nat} (l : List α)
    (h : ∀ a ∈ l, (f a).length = width) : (l.flatMap f).length = l.length * width := by
  rw [List.length_flatMap, List.map_congr_left h, List.map_const', List.sum_replicate_nat]

namespace Table

variable {S Q : Type} [Indexed Q]

/-- The entries of a table for one state. -/
def row (symbols : List S) (f : S → Q) : List UInt32 :=
  symbols.map fun s => (number (f s)).toUInt32

/-- The number of a state is kept as it is when the states fit. -/
theorem toNat_toUInt32 {i : Nat} (hfits : fits Q = true) (hi : i < Indexed.count Q) :
    i.toUInt32.toNat = i := by
  have hmax : Indexed.count Q ≤ maxStates := of_decide_eq_true hfits
  have hsize : maxStates < UInt32.size := by decide
  exact UInt32.toNat_ofNat_of_lt' (by omega)

variable [LawfulIndexed Q]

/-- A row is appended symbol by symbol. -/
theorem appendRow_ok (f : S → Q) : ∀ (symbols : List S) (successors : Array UInt32),
    appendRow (fun s => .ok (f s)) symbols successors =
      .ok (successors ++ (row symbols f).toArray) := by
  intro symbols
  induction symbols with
  | nil => intro successors; rw [row, List.map_nil, appendRow]; simp
  | cons s rest ih =>
    intro successors
    rw [appendRow, ok_bind, index_eq, ok_bind, ih, row, row, List.map_cons]
    simp

/-- The table is filled row by row, from the state with number `i` on. -/
theorem appendRows_ok (f : Q → S → Q) (symbols : List S) :
    ∀ (n i : Nat) (successors : Array UInt32), i + n = Indexed.count Q →
      appendRows (fun q s => .ok (f q s)) symbols n i successors =
        .ok (successors ++ (((values Q).drop i).flatMap fun q => row symbols (f q)).toArray) := by
  intro n
  induction n with
  | zero =>
    intro i successors hi
    rw [List.drop_eq_nil_of_le (by rw [length_values]; omega), appendRows]
    simp
  | succ n ih =>
    intro i successors hi
    obtain ⟨q, hq, hdrop⟩ := drop_values (α := Q) (i := i) (by omega)
    rw [appendRows, hq, ok_bind, appendRow_ok, ok_bind, ih _ _ (by omega), hdrop]
    simp

/-- A row fails when a successor in it does. -/
theorem fails_appendRow {f : S → Checked Q} : ∀ (symbols : List S) (successors : Array UInt32),
    Fails (appendRow f symbols successors) ↔ ∃ s ∈ symbols, Fails (f s) := by
  intro symbols
  induction symbols with
  | nil => intro successors; simp [appendRow]
  | cons s rest ih =>
    intro successors
    simp only [List.mem_cons, exists_eq_or_imp]
    rw [appendRow]
    cases hs : f s with
    | error fault => simp
    | ok r =>
      rw [ok_bind, index_eq, ok_bind, ih]
      simp

/-- The rows to come fail when a successor in one of them does. -/
theorem fails_appendRows {f : Q → S → Checked Q} (symbols : List S) :
    ∀ (n i : Nat) (successors : Array UInt32), i + n = Indexed.count Q →
      (Fails (appendRows f symbols n i successors) ↔
        ∃ q ∈ (values Q).drop i, ∃ s ∈ symbols, Fails (f q s)) := by
  intro n
  induction n with
  | zero =>
    intro i successors hi
    rw [List.drop_eq_nil_of_le (by rw [length_values]; omega)]
    simp [appendRows]
  | succ n ih =>
    intro i successors hi
    obtain ⟨q, hq, hdrop⟩ := drop_values (α := Q) (i := i) (by omega)
    simp only [hdrop, List.mem_cons, exists_eq_or_imp]
    rw [appendRows, hq, ok_bind, ← fails_appendRow symbols successors]
    cases hrow : appendRow (f q) symbols successors with
    | error fault => simp
    | ok next =>
      rw [ok_bind, ih _ _ (by omega)]
      simp

/-! ## Reading back -/

variable [Indexed S] [LawfulIndexed S]

/-- A table is read where its cells have numbers, row by row. -/
theorem get_of_getElem? {t : Table S Q} {q r : Q} {s : S} (hfits : fits Q = true)
    (hcells : Indexed.count Q * Indexed.count S < indexLimit)
    (h : t.successors[number q * Indexed.count S + number s]? = some (number r).toUInt32) :
    t.get q s = .ok r := by
  rw [get, index_eq, index_eq, ok_bind, ok_bind, cellIndex,
    pairIndex_eq (number_lt q) (number_lt s) hcells, ok_bind, h]
  show ofIndex (number r).toUInt32.toNat = _
  rw [toNat_toUInt32 hfits (number_lt r), ofIndex_number]

/-! ## Tables of functions -/

theorem length_map_values {β : Type} (f : S → β) : ((values S).map f).length = Indexed.count S := by
  rw [List.length_map, length_values]

/-- The table that lists the values of a function. -/
def graph (f : Q → S → Q) : Table S Q where
  successors := ((values Q).flatMap fun q => row (values S) (f q)).toArray
  size_successors := by
    have hrow : ∀ q ∈ values Q, (row (values S) (f q)).length = Indexed.count S :=
      fun q _ => length_map_values _
    rw [List.size_toArray, length_flatMap _ hrow, length_values]

/-- The numbers of the values of a function, state by state and symbol by symbol. -/
def numbers (f : Q → S → Q) : List Nat :=
  (values Q).flatMap fun q => (values S).map fun s => number (f q s)

theorem length_numbers (f : Q → S → Q) :
    (numbers f).length = Indexed.count Q * Indexed.count S := by
  rw [numbers, length_flatMap _ fun q _ => length_map_values _, length_values]

omit [LawfulIndexed S] in
theorem numbers_lt (f : Q → S → Q) : ∀ i ∈ numbers f, i < Indexed.count Q := by
  intro i hi
  obtain ⟨q, _, hi⟩ := List.mem_flatMap.mp hi
  obtain ⟨s, _, rfl⟩ := List.mem_map.mp hi
  exact number_lt (f q s)

/-- The number for a pair stands at the row-major number of the pair. -/
theorem getElem?_numbers (f : Q → S → Q) (q : Q) (s : S) :
    (numbers f)[number q * Indexed.count S + number s]? = some (number (f q s)) := by
  rw [numbers, getElem?_flatMap _ (fun q _ => length_map_values _) _ _ (number_lt s),
    getElem?_values, Option.bind_some, List.getElem?_map, getElem?_values, Option.map_some]

/-- Every list of the right length that holds numbers of states only lists the values of some
function. -/
theorem exists_numbers {l : List Nat} (hlength : l.length = Indexed.count Q * Indexed.count S)
    (hlt : ∀ i ∈ l, i < Indexed.count Q) : ∃ f : Q → S → Q, numbers f = l := by
  have hcell : ∀ (q : Q) (s : S), ∃ r : Q,
      l[number q * Indexed.count S + number s]? = some (number r) := by
    intro q s
    have hi : number q * Indexed.count S + number s < l.length := by
      rw [hlength]
      exact cell_lt (number_lt q) (number_lt s)
    obtain ⟨r, _, hr⟩ := exists_number (α := Q) (hlt _ (List.getElem_mem hi))
    exact ⟨r, by rw [List.getElem?_eq_getElem hi, hr]⟩
  obtain ⟨f, hf⟩ := Classical.axiomOfChoice fun cell : Q × S => hcell cell.1 cell.2
  refine ⟨fun q s => f (q, s), List.ext_getElem? fun i => ?_⟩
  by_cases hi : i < Indexed.count Q * Indexed.count S
  · obtain ⟨q, s, rfl⟩ := exists_cell hi
    rw [getElem?_numbers]
    exact (hf (q, s)).symm
  · rw [List.getElem?_eq_none (by rw [length_numbers]; omega), List.getElem?_eq_none (by omega)]

/-- The table of a function holds the numbers of its values. -/
theorem successors_graph (f : Q → S → Q) :
    (graph f).successors = ((numbers f).map Nat.toUInt32).toArray := by
  rw [numbers, List.map_flatMap]
  simp only [List.map_map]
  rfl

/-- The cell of a state and a symbol holds the number of the successor. -/
theorem getElem?_graph (f : Q → S → Q) (q : Q) (s : S) :
    (graph f).successors[number q * Indexed.count S + number s]? =
      some (number (f q s)).toUInt32 := by
  rw [successors_graph, List.getElem?_toArray, List.getElem?_map, getElem?_numbers, Option.map_some]

theorem get_graph (hfits : fits Q = true) (hcells : Indexed.count Q * Indexed.count S < indexLimit)
    (f : Q → S → Q) (q : Q) (s : S) : (graph f).get q s = .ok (f q s) :=
  get_of_getElem? hfits hcells (getElem?_graph f q s)

/-- A function that gives a successor for every pair is evaluated to the table of its values. -/
theorem ofFunction_eq (hfits : fits Q = true) (f : Q → S → Q) :
    ofFunction (fun q s => .ok (f q s)) = .ok (graph f) := by
  have hrows := appendRows_ok f (values S) (Indexed.count Q) 0 #[] (Nat.zero_add _)
  rw [Array.empty_append, List.drop_zero] at hrows
  rw [ofFunction, if_pos hfits, all_eq, ok_bind, hrows, ok_bind]
  exact dif_pos (graph f).size_successors

/-- The table of a function that gives a successor for every pair holds these successors. -/
theorem ofFunction_eq_ok (hfits : fits Q = true) (f : Q → S → Q) :
    ∃ t : Table S Q, ofFunction (fun q s => .ok (f q s)) = .ok t ∧
      (Indexed.count Q * Indexed.count S < indexLimit → ∀ q s, t.get q s = .ok (f q s)) :=
  ⟨graph f, ofFunction_eq hfits f, fun hcells => get_graph hfits hcells f⟩

/-- No number is out of range exactly when none is found that is. -/
theorem find?_eq_none_iff_forall_lt {bound : Nat} {l : List Nat} :
    l.find? (bound ≤ ·) = none ↔ ∀ i ∈ l, i < bound := by
  simp

/-- The numbers of the values are read as the table of the values. -/
theorem ofIndices_eq (hfits : fits Q = true) (f : Q → S → Q) :
    ofIndices (numbers f) = .ok (graph f) := by
  have hnone := find?_eq_none_iff_forall_lt.mpr (numbers_lt f)
  have hentries : ((numbers f).map Nat.toUInt32).toArray = (graph f).successors :=
    (successors_graph f).symm
  rw [ofIndices, requireFits, if_pos hfits, ok_bind]
  simp only [hnone, length_numbers, dite_true, hentries]
  rfl

/-- A list of numbers is read as a table only where it lists the values of a function, as the table
of the function. -/
theorem ofIndices_eq_ok {l : List Nat} {t : Table S Q} (h : ofIndices l = .ok t) :
    fits Q = true ∧ ∃ f, l = numbers f ∧ t = graph f := by
  have hread := h
  rw [ofIndices, requireFits] at hread
  split at hread
  next hfits =>
    rw [ok_bind] at hread
    split at hread
    next => cases hread
    next hnone =>
      split at hread
      next hlength =>
        obtain ⟨f, rfl⟩ := exists_numbers hlength (find?_eq_none_iff_forall_lt.mp hnone)
        exact ⟨hfits, f, rfl, Except.ok.inj (h.symm.trans (ofIndices_eq hfits f))⟩
      next => cases hread
  next => cases hread

/-- A table is not made exactly when the function meets a fault at some pair. -/
theorem fails_ofFunction {f : Q → S → Checked Q} (hfits : fits Q = true) :
    Fails (ofFunction f : Checked (Table S Q)) ↔ ∃ q s, Fails (f q s) := by
  constructor
  · intro hfail
    refine Classical.byContradiction fun hnone => ?_
    obtain ⟨g, rfl⟩ := exists_eq_ok fun q s => not_fails_iff.mp fun h => hnone ⟨q, s, h⟩
    obtain ⟨t, ht, _⟩ := ofFunction_eq_ok (S := S) hfits g
    rw [ht] at hfail
    exact not_fails_ok t hfail
  · intro h
    obtain ⟨q, s, hqs⟩ := h
    have hrows := (fails_appendRows (f := f) (values S) (Indexed.count Q) 0 #[]
      (Nat.zero_add _)).mpr ⟨q, by rw [List.drop_zero]; exact mem_values q, s, mem_values s, hqs⟩
    rw [ofFunction, if_pos hfits, all_eq, ok_bind, fails_bind]
    exact Or.inl hrows

/-- A table is made of a function only where it gives a successor for every pair, and is the table
of these successors. -/
theorem ofFunction_eq_graph {f : Q → S → Checked Q} {t : Table S Q} (h : ofFunction f = .ok t) :
    fits Q = true ∧ ∃ g, f = (fun q s => .ok (g q s)) ∧ t = graph g := by
  have hfits : fits Q = true := by
    refine Classical.byContradiction fun hlarge => ?_
    rw [ofFunction, if_neg hlarge] at h
    cases h
  have htotal : ∀ q s, ∃ r, f q s = .ok r := fun q s => by
    refine not_fails_iff.mp fun hfail => ?_
    have hfails := (fails_ofFunction hfits).mpr ⟨q, s, hfail⟩
    rw [h] at hfails
    exact not_fails_ok t hfails
  obtain ⟨g, rfl⟩ := exists_eq_ok htotal
  exact ⟨hfits, g, rfl, Except.ok.inj (h.symm.trans (ofFunction_eq hfits g))⟩

end Table

end Automata
