import Automata.Proofs.RowOrder
import Automata.Proofs.RuleSets
import Automata.Proofs.Totality

/-!
# Tables and their entries

A table is made in three ways and read in two. It is made by evaluating a function, from rules in
any order, and from the numbers of the successors row by row; it is read one pair at a time, and as
the list of all its entries. Each way of making a table leads to the graph of a function
(`Made.exists_graph`), and reading a graph gives back the function: pair by pair (`get_graph`) and
row by row (`entries_graph`). So there is one table for each function, and each way of reading a
table has all that each way of making it needs:

> `entries_give_back`: the entries of a table are its pairs with their successors, once each and row
> by row; from the entries as rules, from the successors as a function, and from their numbers the
> same table is made again; and tables are equal exactly when they give the same successors.
-/

namespace Automata.Table

variable {S Q : Type} [Indexed S] [Indexed Q]

/-! ## The entries of a graph -/

/-- All pairs with the values of a function, row by row. -/
def listing (f : Q → S → Q) : List (Q × S × Q) :=
  (values Q ×ˢ values S).map fun p => (p.1, p.2, f p.1 p.2)

/-- The listing is made of rows of one width. -/
theorem listing_eq_flatten (f : Q → S → Q) :
    listing f = ((values Q).map fun q => (values S).map fun s => (q, s, f q s)).flatten := by
  show ((values Q).flatMap fun q => (values S).map (Prod.mk q)).map _ = _
  rw [List.map_flatMap, ← List.flatMap_def]
  simp only [List.map_map, Function.comp_def]

/-- The numbers of the successors, row by row, are those of the entries. -/
theorem map_number_listing (f : Q → S → Q) :
    (listing f).map (fun e => number e.2.2) = numbers f := by
  rw [listing_eq_flatten, List.map_flatten, List.map_map, ← List.flatMap_def, numbers]
  simp only [Function.comp_def, List.map_map]

variable [LawfulIndexed S] [LawfulIndexed Q]

theorem length_listing (f : Q → S → Q) :
    (listing f).length = Indexed.count Q * Indexed.count S := by
  rw [listing, List.length_map, length_values_product]

/-- The entry for a state and a symbol stands at the number of their cell. -/
theorem getElem?_listing (f : Q → S → Q) (q : Q) (s : S) :
    (listing f)[number q * Indexed.count S + number s]? = some (q, s, f q s) := by
  rw [listing, List.getElem?_map, getElem?_values_product, Option.map_some]

/-- Each pair is listed once, with its successor. -/
theorem mem_listing {f : Q → S → Q} {q r : Q} {s : S} : (q, s, r) ∈ listing f ↔ r = f q s := by
  rw [listing, List.mem_map]
  constructor
  · rintro ⟨p, _, heq⟩
    cases heq
    rfl
  · rintro rfl
    exact ⟨(q, s), List.mem_product.mpr ⟨mem_values q, mem_values s⟩, rfl⟩

theorem pairwise_listing (f : Q → S → Q) :
    (listing f).Pairwise fun e e' => RowBefore (e.1, e.2.1) (e'.1, e'.2.1) :=
  List.pairwise_map.mpr (pairwise_product pairwise_values pairwise_values)

/-- Reading the table of a function row by row gives the values of the function. -/
theorem entries_graph (hfits : fits Q = true)
    (hcells : Indexed.count Q * Indexed.count S < indexLimit) (f : Q → S → Q) :
    (graph f).entries = .ok (listing f) := by
  have hrow : ∀ q : Q, (values S).mapM (fun s => do return (q, s, ← (graph f).get q s)) =
      .ok ((values S).map fun s => (q, s, f q s)) := by
    intro q
    refine mapM_eq_ok _ fun s _ => ?_
    rw [get_graph hfits hcells, ok_bind, pure_eq_ok]
  rw [entries, all_eq, ok_bind, all_eq, ok_bind, mapM_eq_ok (values Q) fun q _ => hrow q, ok_bind,
    pure_eq_ok, listing_eq_flatten]

/-- Tables of functions are equal when the functions are. -/
theorem graph_inj (hfits : fits Q = true)
    (hcells : Indexed.count Q * Indexed.count S < indexLimit) {f g : Q → S → Q} :
    graph f = graph g ↔ ∀ q s, f q s = g q s := by
  constructor
  · intro h q s
    have hget := get_graph hfits hcells f q s
    rw [h, get_graph hfits hcells g q s] at hget
    exact (Except.ok.inj hget).symm
  · intro h
    rw [funext fun q => funext (h q)]

/-- Every table that was made is the table of a function. -/
theorem Made.exists_graph {t : Table S Q} (h : t.Made) : fits Q = true ∧ ∃ f, t = graph f := by
  cases h with
  | ofFunction h =>
    obtain ⟨hfits, f, _, ht⟩ := ofFunction_eq_graph h
    exact ⟨hfits, f, ht⟩
  | ofRules h =>
    obtain ⟨hfits, f, _, ht⟩ := ofRules_eq_graph h
    exact ⟨hfits, f, ht⟩
  | ofIndices h =>
    obtain ⟨hfits, f, _, ht⟩ := ofIndices_eq_ok h
    exact ⟨hfits, f, ht⟩

/-! ## Reading and making -/

/-- The list has the entries of the table. -/
structure Lists (t : Table S Q) (es : List (Q × S × Q)) : Prop where
  entries_eq : t.entries = .ok es
  length_eq : es.length = Indexed.count Q * Indexed.count S
  /-- The entries are the pairs with their successors. -/
  mem_iff : ∀ q s r, (q, s, r) ∈ es ↔ t.get q s = .ok r
  /-- Every pair has an entry, which stands at the row-major number of the pair, -/
  getElem?_eq : ∀ q s, ∃ r, es[number q * Indexed.count S + number s]? = some (q, s, r)
  /-- and no pair has a second one. -/
  ordered : es.Pairwise fun e e' => RowBefore (e.1, e.2.1) (e'.1, e'.2.1)

variable [DecidableEq S] [DecidableEq Q] [Hashable S] [Hashable Q]

/-- What is read off the table makes the table again. -/
structure GivesBack (t : Table S Q) (es : List (Q × S × Q)) : Prop where
  /-- The entries as rules, in any order and each of them any number of times. -/
  ofRules_eq : ∀ rules, (∀ r, r ∈ rules ↔ (r.source, r.symbol, r.target) ∈ es) →
    (ofRules rules).outcome = .ok t
  /-- The successors of the pairs, asked for one by one. -/
  ofFunction_eq : ofFunction t.get = .ok t
  /-- The numbers of the successors in the order of the entries. -/
  ofIndices_eq : ∃ numbers, es.mapM (fun e => index e.2.2) = .ok numbers ∧ ofIndices numbers = .ok t

omit [DecidableEq S] [DecidableEq Q] [Hashable S] [Hashable Q] in
/-- Every made table is a graph, and it lists the entries of its function. -/
theorem lists_graph (hfits : fits Q = true)
    (hcells : Indexed.count Q * Indexed.count S < indexLimit) (f : Q → S → Q) :
    (graph f).Lists (listing f) where
  entries_eq := entries_graph hfits hcells f
  length_eq := length_listing f
  mem_iff q s r := by
    rw [mem_listing, get_graph hfits hcells, Except.ok.injEq]
    exact eq_comm
  getElem?_eq q s := ⟨f q s, getElem?_listing f q s⟩
  ordered := pairwise_listing f

theorem givesBack_graph (hfits : fits Q = true)
    (hcells : Indexed.count Q * Indexed.count S < indexLimit) (f : Q → S → Q) :
    (graph f).GivesBack (listing f) where
  ofRules_eq rules hrules := ofRules_eq_ok (fun q s r => (hrules ⟨q, s, r⟩).trans mem_listing) hfits
  ofFunction_eq := by
    have hget : (graph f).get = fun q s => .ok (f q s) :=
      funext fun q => funext (get_graph hfits hcells f q)
    rw [hget, ofFunction_eq hfits]
  ofIndices_eq := by
    refine ⟨numbers f, ?_, ofIndices_eq hfits f⟩
    rw [mapM_eq_ok (listing f) fun e _ => index_eq e.2.2, map_number_listing]

/-- **Entries give back their table.** The entries of a table, in whatever way it was made, are all
pairs with their successors, once each and row by row, and they hold all that is needed to make the
table again in each of the three ways. Two tables are equal exactly when they give the same
successors. As always, the number of cells has to be an index for a table to be read. -/
theorem entries_give_back (hcells : Indexed.count Q * Indexed.count S < indexLimit) :
    (∀ t : Table S Q, t.Made → ∃ es, t.Lists es ∧ t.GivesBack es) ∧
    ∀ t t' : Table S Q, t.Made → t'.Made →
      ((t == t') = true ↔ ∀ q s, t.get q s = t'.get q s) := by
  constructor
  · intro t ht
    obtain ⟨hfits, f, rfl⟩ := ht.exists_graph
    exact ⟨listing f, lists_graph hfits hcells f, givesBack_graph hfits hcells f⟩
  · intro t t' ht ht'
    obtain ⟨hfits, f, rfl⟩ := ht.exists_graph
    obtain ⟨_, g, rfl⟩ := ht'.exists_graph
    rw [beq_iff_eq, graph_inj hfits hcells]
    simp only [get_graph hfits hcells, Except.ok.injEq]

/-- Toggles on the one symbol whose two parts are both `true`. -/
def toggles (q : Bool) (s : Bool × Bool) : Bool := xor q (s.1 && s.2)

/-- The entries of its table. -/
def toggleEntries : List (Bool × (Bool × Bool) × Bool) :=
  [(false, (false, false), false), (false, (false, true), false), (false, (true, false), false),
    (false, (true, true), true), (true, (false, false), true), (true, (false, true), true),
    (true, (true, false), true), (true, (true, true), false)]

/-- The table is evaluated, and made again from its entries, of which all are repeated once in
reverse order, and from the numbers of its successors. -/
theorem entries_give_back_toggles :
    Indexed.count Bool * Indexed.count (Bool × Bool) < indexLimit ∧
    ∃ t : Table (Bool × Bool) Bool, ofFunction (fun q s => .ok (toggles q s)) = .ok t ∧
      t.entries = .ok toggleEntries ∧
      (ofRules ((toggleEntries.reverse ++ toggleEntries).map fun e =>
        ⟨e.1, e.2.1, e.2.2⟩)).outcome = .ok t ∧
      ofIndices [0, 0, 0, 1, 1, 1, 1, 0] = .ok t := by
  have hcells : Indexed.count Bool * Indexed.count (Bool × Bool) < indexLimit := by decide
  have hlawful : LawfulIndexed (Bool × Bool) := LawfulIndexed.pair (by decide)
  have hmade : ofFunction (fun q s => .ok (toggles q s)) = .ok (graph toggles) :=
    ofFunction_eq (by decide) toggles
  obtain ⟨es, hlists, hback⟩ := (entries_give_back hcells).1 _ (.ofFunction hmade)
  have hentries : (do (← ofFunction fun q s => .ok (toggles q s)).entries) = .ok toggleEntries := by
    decide +kernel
  rw [hmade, ok_bind] at hentries
  obtain rfl : es = toggleEntries := Except.ok.inj (hlists.entries_eq.symm.trans hentries)
  obtain ⟨numbers, hnumbers, hindices⟩ := hback.ofIndices_eq
  have hevaluated : toggleEntries.mapM (fun e => index e.2.2) = .ok [0, 0, 0, 1, 1, 1, 1, 0] := by
    decide +kernel
  obtain rfl := Except.ok.inj (hnumbers.symm.trans hevaluated)
  refine ⟨hcells, graph toggles, hmade, hentries, hback.ofRules_eq _ fun r => ?_, hindices⟩
  rw [List.mem_map]
  constructor
  · rintro ⟨e, he, rfl⟩
    rcases List.mem_append.mp he with he | he
    · exact List.mem_reverse.mp he
    · exact he
  · intro hr
    exact ⟨_, List.mem_append_right _ hr, rfl⟩

end Automata.Table
