import Automata.Proofs.RowOrder
import Automata.Proofs.StateSets

/-!
# Sets over nested types

However a set of states comes about, and however the type of its states is put together from pairs,
it is the set of states that it should be. `Term` is a way of making a set, by any of the operations
and to any depth; products make sets over pairs, which other operations then go on with. What it
should hold is said state by state (`Term.Holds`), and `Term.eval_eq_ok` shows that carrying out the
operations comes to just that. Since sets with the same states are equal, laws about single states
are laws about sets:

> `same_iff_holds`: two terms come to equal sets exactly when they hold of the same states.

A set is as good as the list of its states. There is only one list of them in the order of their
numbers, so that the list of a product is known once a list with its pairs is in this order, which
the pairs of two such lists are row by row: `product_lists`.

> `typed_sets_faithful`: every set is given back by its states, in whatever order and however often
> they are collected, a product pairs and counts the states of its factors and goes through them row
> by row, and it distributes over union and intersection.
-/

namespace Automata.StateSet

/-! ## Terms -/

/-- A way of making a set of states. Pairs need to be numbered for their product to be made. -/
inductive Term : (Q : Type) → [Indexed Q] → Type 1 where
  | of {Q : Type} [Indexed Q] [LawfulIndexed Q] (s : StateSet Q) : Term Q
  | empty {Q : Type} [Indexed Q] [LawfulIndexed Q] : Term Q
  | full {Q : Type} [Indexed Q] [LawfulIndexed Q] : Term Q
  | filter {Q : Type} [Indexed Q] [LawfulIndexed Q] (p : Q → Bool) : Term Q
  | collect {Q : Type} [Indexed Q] [LawfulIndexed Q] (states : List Q) : Term Q
  | insert {Q : Type} [Indexed Q] (e : Term Q) (q : Q) : Term Q
  | remove {Q : Type} [Indexed Q] (e : Term Q) (q : Q) : Term Q
  | extend {Q : Type} [Indexed Q] (e : Term Q) (states : List Q) : Term Q
  | complement {Q : Type} [Indexed Q] (e : Term Q) : Term Q
  | intersection {Q : Type} [Indexed Q] (e f : Term Q) : Term Q
  | union {Q : Type} [Indexed Q] (e f : Term Q) : Term Q
  | product {Q M : Type} [Indexed Q] [Indexed M] (e : Term Q) (f : Term M)
    (hfits : Indexed.count (Q × M) < indexLimit) : Term (Q × M)

/-- Both computations give a set, and the sets are equal. -/
def Same {Q : Type} [Indexed Q] (x y : Checked (StateSet Q)) : Prop := ∃ s, x = .ok s ∧ y = .ok s

namespace Term

/-- Carries out the operations of a term. -/
def eval : {Q : Type} → [Indexed Q] → Term Q → Checked (StateSet Q)
  | _, _, of s => .ok s
  | _, _, empty => .ok .empty
  | _, _, full => .ok .full
  | _, _, filter p => ofPredicate p
  | _, _, collect states => ofList states
  | _, _, insert e q => do return (← (← e.eval).insert q).2
  | _, _, remove e q => do return (← (← e.eval).remove q).2
  | _, _, extend e states => do
    match (← e.eval).extend states with
    | (s, none) => return s
    | (_, some fault) => throw fault
  | _, _, complement e => do return (← e.eval).complement
  | _, _, intersection e f => do (← e.eval).intersection (← f.eval)
  | _, _, union e f => do (← e.eval).union (← f.eval)
  | _, _, product e f _ => do (← e.eval).product (← f.eval)

/-- The states that should be in the set that a term comes to. -/
def Holds : {Q : Type} → [Indexed Q] → Term Q → Q → Prop
  | _, _, of s, q => q ∈ s
  | _, _, empty, _ => False
  | _, _, full, _ => True
  | _, _, filter p, q => p q = true
  | _, _, collect states, q => q ∈ states
  | _, _, insert e r, q => q = r ∨ e.Holds q
  | _, _, remove e r, q => q ≠ r ∧ e.Holds q
  | _, _, extend e states, q => q ∈ states ∨ e.Holds q
  | _, _, complement e, q => ¬e.Holds q
  | _, _, intersection e f, q => e.Holds q ∧ f.Holds q
  | _, _, union e f, q => e.Holds q ∨ f.Holds q
  | _, _, product e f _, p => e.Holds p.1 ∧ f.Holds p.2

/-- Terms are made over lawfully numbered types only. -/
theorem lawful {Q : Type} [Indexed Q] (e : Term Q) : LawfulIndexed Q := by
  induction e with
  | of | empty | full | filter | collect => assumption
  | insert _ _ ih | remove _ _ ih | extend _ _ ih | complement _ ih => exact ih
  | intersection _ _ ih _ | union _ _ ih _ => exact ih
  | product _ _ hfits ihe ihf =>
    have := ihe
    have := ihf
    exact LawfulIndexed.pair hfits

/-- A term comes to a set, and its states are those that the term holds of. -/
theorem eval_eq_ok {Q : Type} [Indexed Q] (e : Term Q) :
    ∃ s, e.eval = .ok s ∧ ∀ q, q ∈ s ↔ e.Holds q := by
  induction e with
  | of s => exact ⟨s, rfl, fun q => Iff.rfl⟩
  | empty => exact ⟨.empty, rfl, fun q => iff_of_false (not_mem_empty q) id⟩
  | full => exact ⟨.full, rfl, fun q => iff_of_true (mem_full q) trivial⟩
  | filter p => exact ofPredicate_eq_ok p
  | collect states => exact ofList_eq_ok states
  | insert e q ih =>
    have := e.lawful
    obtain ⟨s, hs, hmem⟩ := ih
    obtain ⟨t, ht, hinsert⟩ := insert_eq_ok s q
    refine ⟨t, by rw [eval, hs, ok_bind, ht]; rfl, fun r => ?_⟩
    rw [hinsert, hmem, Holds]
  | remove e q ih =>
    have := e.lawful
    obtain ⟨s, hs, hmem⟩ := ih
    obtain ⟨t, ht, hremove⟩ := remove_eq_ok s q
    refine ⟨t, by rw [eval, hs, ok_bind, ht]; rfl, fun r => ?_⟩
    rw [hremove, hmem, Holds]
  | extend e states ih =>
    have := e.lawful
    obtain ⟨s, hs, hmem⟩ := ih
    obtain ⟨t, ht, hextend⟩ := extend_eq states s
    refine ⟨t, by rw [eval, hs, ok_bind, ht]; rfl, fun r => ?_⟩
    rw [hextend, hmem, Holds]
  | complement e ih =>
    have := e.lawful
    obtain ⟨s, hs, hmem⟩ := ih
    refine ⟨s.complement, by rw [eval, hs]; rfl, fun q => ?_⟩
    rw [mem_complement, hmem, Holds]
  | intersection e f ihe ihf =>
    obtain ⟨s, hs, hmem⟩ := ihe
    obtain ⟨t, ht, hmem'⟩ := ihf
    obtain ⟨u, hu, hintersection⟩ := intersection_eq_ok s t
    refine ⟨u, by rw [eval, hs, ht]; exact hu, fun q => ?_⟩
    rw [hintersection, hmem, hmem', Holds]
  | union e f ihe ihf =>
    obtain ⟨s, hs, hmem⟩ := ihe
    obtain ⟨t, ht, hmem'⟩ := ihf
    obtain ⟨u, hu, hunion⟩ := union_eq_ok s t
    refine ⟨u, by rw [eval, hs, ht]; exact hu, fun q => ?_⟩
    rw [hunion, hmem, hmem', Holds]
  | product e f hfits ihe ihf =>
    have := e.lawful
    have := f.lawful
    obtain ⟨s, hs, hmem⟩ := ihe
    obtain ⟨t, ht, hmem'⟩ := ihf
    obtain ⟨u, hu, hproduct⟩ := product_eq_ok hfits s t
    refine ⟨u, by rw [eval, hs, ht]; exact hu, fun p => ?_⟩
    -- a state of the product is a pair, and its number has to be an index
    obtain ⟨q, m⟩ := p
    rw [hproduct, hmem, hmem', Holds]

/-- **Laws of single states are laws of sets.** Two terms come to equal sets exactly when they hold
of the same states. -/
theorem same_iff_holds {Q : Type} [Indexed Q] (e f : Term Q) :
    Same e.eval f.eval ↔ ∀ q, e.Holds q ↔ f.Holds q := by
  have := e.lawful
  obtain ⟨s, hs, hmem⟩ := e.eval_eq_ok
  obtain ⟨t, ht, hmem'⟩ := f.eval_eq_ok
  constructor
  · intro hsame q
    obtain ⟨u, hu, hu'⟩ := hsame
    cases hs.symm.trans hu
    cases ht.symm.trans hu'
    rw [← hmem, ← hmem']
  · intro h
    have heq : t = s := ext fun q => by rw [hmem, hmem', h]
    exact ⟨s, hs, by rw [ht, heq]⟩

end Term

/-! ## The list of the states -/

section Lists

variable {Q : Type} [Indexed Q]

/-- The states of a set in the order of their numbers, and what can be made of them. -/
structure Lists (s : StateSet Q) (states : List Q) : Prop where
  toList_eq : s.toList = .ok states
  /-- Each state is listed once, in the order of their numbers. -/
  ordered : states.Pairwise fun q r => number q < number r
  decides : ∀ q, Decides (s.contains q) (q ∈ states)
  length_eq : states.length = s.len
  /-- Collecting the states, in any order and any number of times, gives the set back. -/
  collected : ∀ again, (∀ q, q ∈ again ↔ q ∈ states) → Same (ofList again) (.ok s)
  /-- So does asking about every state whether the set contains it. -/
  filtered : ∀ p : Q → Bool, (∀ q, s.contains q = .ok (p q)) → Same (ofPredicate p) (.ok s)

variable [LawfulIndexed Q]

theorem contains_eq_ok_iff {s : StateSet Q} {q : Q} {b : Bool} :
    s.contains q = .ok b ↔ (b = true ↔ q ∈ s) := by
  rw [contains_eq, Except.ok.injEq, Bool.eq_iff_iff, decide_eq_true_eq]
  exact comm

/-- Every set has a list of its states. -/
theorem exists_lists (s : StateSet Q) : ∃ states, s.Lists states := by
  have hmem : ∀ q, q ∈ (values Q).filter (· ∈ s) ↔ q ∈ s := fun q => by
    rw [List.mem_filter, decide_eq_true_eq, and_iff_right (mem_values q)]
  refine ⟨(values Q).filter (· ∈ s), {
    toList_eq := toList_eq_ok s
    ordered := pairwise_values.filter _
    decides := fun q => ⟨_, contains_eq s q, by rw [decide_eq_true_eq, hmem]⟩
    length_eq := (len_eq s).symm
    collected := fun again hagain => ?_
    filtered := fun p hp => ?_ }⟩
  · refine (Term.same_iff_holds (.collect again) (.of s)).mpr fun q => ?_
    exact (hagain q).trans (hmem q)
  · refine (Term.same_iff_holds (.filter p) (.of s)).mpr fun q => ?_
    exact contains_eq_ok_iff.mp (hp q)

theorem Lists.mem_iff {s : StateSet Q} {states : List Q} (h : s.Lists states) (q : Q) :
    q ∈ states ↔ q ∈ s := by
  obtain ⟨b, hb, hiff⟩ := h.decides q
  rw [← hiff]
  exact contains_eq_ok_iff.mp hb

/-- The states of a set can be listed in the order of their numbers in one way only. -/
theorem toList_eq_ok_of_ordered {s : StateSet Q} {states : List Q}
    (hordered : states.Pairwise fun q r => number q < number r) (hmem : ∀ q, q ∈ states ↔ q ∈ s) :
    s.toList = .ok states := by
  obtain ⟨listed, h⟩ := s.exists_lists
  rw [h.toList_eq, eq_of_ordered hordered h.ordered fun q => (hmem q).trans (h.mem_iff q).symm]

end Lists

/-! ## Products -/

section Products

variable {Q M : Type} [Indexed Q] [Indexed M]

/-- The set has the pairs of a state of the left and a state of the right set. -/
structure IsProduct (s : StateSet Q) (t : StateSet M) (u : StateSet (Q × M)) : Prop where
  contains_eq : ∀ q m, u.contains (q, m) = do return (← s.contains q) && (← t.contains m)
  len_eq : u.len = s.len * t.len
  /-- The pairs are listed row by row: all with the first state of the left set, and so on. -/
  toList_eq : u.toList = do return (← s.toList) ×ˢ (← t.toList)
  ordered : ∀ pairs, u.toList = .ok pairs → pairs.Pairwise RowBefore

/-- Products distribute over union and intersection on either side. -/
structure Distributes (s s' : StateSet Q) (t t' : StateSet M) : Prop where
  union_left : Same (do (← s.union s').product t) (do (← s.product t).union (← s'.product t))
  union_right : Same (do s.product (← t.union t')) (do (← s.product t).union (← s.product t'))
  intersection_left : Same (do (← s.intersection s').product t)
    (do (← s.product t).intersection (← s'.product t))
  intersection_right : Same (do s.product (← t.intersection t'))
    (do (← s.product t).intersection (← s.product t'))

variable [LawfulIndexed Q] [LawfulIndexed M]

/-- The list of a product has the pairs of the two lists, row by row. -/
theorem product_lists (hfits : Indexed.count (Q × M) < indexLimit) {s : StateSet Q}
    {t : StateSet M} {u : StateSet (Q × M)} {qs : List Q} {ms : List M} (hs : s.Lists qs)
    (ht : t.Lists ms) (hmem : ∀ q m, (q, m) ∈ u ↔ q ∈ s ∧ m ∈ t) : u.toList = .ok (qs ×ˢ ms) := by
  have := LawfulIndexed.pair hfits
  have hrows : (qs ×ˢ ms).Pairwise fun p p' => number p < number p' :=
    (pairwise_product hs.ordered ht.ordered).imp fun h => (number_lt_iff_rowBefore hfits _ _).mpr h
  refine toList_eq_ok_of_ordered hrows fun p => ?_
  obtain ⟨q, m⟩ := p
  rw [List.mem_product, hs.mem_iff, ht.mem_iff, hmem]

theorem exists_isProduct (hfits : Indexed.count (Q × M) < indexLimit) (s : StateSet Q)
    (t : StateSet M) : ∃ u, s.product t = .ok u ∧ IsProduct s t u := by
  have := LawfulIndexed.pair hfits
  obtain ⟨u, hu, hmem⟩ := product_eq_ok hfits s t
  obtain ⟨qs, hqs⟩ := s.exists_lists
  obtain ⟨ms, hms⟩ := t.exists_lists
  obtain ⟨pairs, hpairs⟩ := u.exists_lists
  have hlist : u.toList = .ok (qs ×ˢ ms) := product_lists hfits hqs hms hmem
  obtain rfl : pairs = qs ×ˢ ms := Except.ok.inj (hpairs.toList_eq.symm.trans hlist)
  refine ⟨u, hu, {
    contains_eq := fun q m => ?_
    len_eq := by rw [← hpairs.length_eq, List.length_product, hqs.length_eq, hms.length_eq]
    toList_eq := by rw [hlist, hqs.toList_eq, hms.toList_eq]; rfl
    ordered := fun pairs' hpairs' => ?_ }⟩
  · rw [contains_eq, contains_eq, contains_eq, ok_bind, ok_bind, pure_eq_ok, ← Bool.decide_and]
    simp only [hmem]
  · obtain rfl := Except.ok.inj (hlist.symm.trans hpairs')
    exact pairwise_product hqs.ordered hms.ordered

/-- Each law holds of single pairs. -/
theorem distributes (hfits : Indexed.count (Q × M) < indexLimit) (s s' : StateSet Q)
    (t t' : StateSet M) : Distributes s s' t t' := by
  let x : Term Q := .of s
  let x' : Term Q := .of s'
  let y : Term M := .of t
  let y' : Term M := .of t'
  exact {
    union_left := (Term.same_iff_holds (.product (.union x x') y hfits)
      (.union (.product x y hfits) (.product x' y hfits))).mpr fun _ => or_and_right
    union_right := (Term.same_iff_holds (.product x (.union y y') hfits)
      (.union (.product x y hfits) (.product x y' hfits))).mpr fun _ => and_or_left
    intersection_left := (Term.same_iff_holds (.product (.intersection x x') y hfits)
      (.intersection (.product x y hfits) (.product x' y hfits))).mpr
        fun _ => and_and_right
    intersection_right := (Term.same_iff_holds (.product x (.intersection y y') hfits)
      (.intersection (.product x y hfits) (.product x y' hfits))).mpr
        fun _ => and_and_left }

end Products

/-- **Typed sets are faithful.** Every way of making a set, over pairs nested to any depth, comes to
the set of the states that it should, and these are listed once each, in order, and give the set
back. Over any two types whose pairs can be numbered, the product of two sets contains, counts and
lists the pairs of their states, and it distributes over union and intersection on either side. -/
theorem typed_sets_faithful :
    (∀ (Q : Type) [Indexed Q] (e : Term Q), ∃ s states, e.eval = .ok s ∧
      (∀ q, Decides (s.contains q) (e.Holds q)) ∧ s.Lists states) ∧
    ∀ (Q M : Type) [Indexed Q] [Indexed M] [LawfulIndexed Q] [LawfulIndexed M],
      Indexed.count (Q × M) < indexLimit →
      (∀ (s : StateSet Q) (t : StateSet M), ∃ u, s.product t = .ok u ∧ IsProduct s t u) ∧
      ∀ (s s' : StateSet Q) (t t' : StateSet M), Distributes s s' t t' := by
  refine ⟨fun Q _ e => ?_, fun Q M _ _ _ _ hfits => ⟨exists_isProduct hfits, distributes hfits⟩⟩
  have := e.lawful
  obtain ⟨s, hs, hmem⟩ := e.eval_eq_ok
  obtain ⟨states, hlists⟩ := s.exists_lists
  exact ⟨s, states, hs, fun q => (hlists.decides q).congr ((hlists.mem_iff q).trans (hmem q)),
    hlists⟩

/-- All pairs of truth values but one. -/
def threePairs : Term (Bool × Bool) :=
  .remove (.product (.collect [true, false, true]) .full (by decide)) (false, true)

/-- The three pairs, each with the one value that is not `true`, make three triples. -/
theorem typed_sets_faithful_threePairs :
    Indexed.count ((Bool × Bool) × Bool) < indexLimit ∧
    ∃ s t u, threePairs.eval = .ok s ∧ Term.eval (.complement (.filter id)) = .ok t ∧
      s.product t = .ok u ∧ u.len = 3 ∧
      u.toList = .ok [((false, false), false), ((true, false), false), ((true, true), false)] ∧
      Same (ofList [(true, true), (false, false), (true, false), (true, true)]) (.ok s) ∧
      Distributes s s.complement t t.complement := by
  have hfits : Indexed.count ((Bool × Bool) × Bool) < indexLimit := by decide
  have := threePairs.lawful
  obtain ⟨hterms, hproducts⟩ := typed_sets_faithful
  obtain ⟨s, qs, hs, _, hlists⟩ := hterms _ threePairs
  obtain ⟨t, ms, ht, _, hlists'⟩ := hterms _ (.complement (.filter id))
  obtain ⟨hproduct, hdistributes⟩ := hproducts (Bool × Bool) Bool hfits
  obtain ⟨u, hu, hpairs⟩ := hproduct s t
  -- the lists of the two factors are found by evaluation
  have hqs : (do (← threePairs.eval).toList) =
      .ok [(false, false), (true, false), (true, true)] := by
    decide +kernel
  have hms : (do (← Term.eval (.complement (.filter id))).toList) = .ok [false] := by
    decide +kernel
  rw [hs, ok_bind, hlists.toList_eq] at hqs
  rw [ht, ok_bind, hlists'.toList_eq] at hms
  obtain rfl := Except.ok.inj hqs
  obtain rfl := Except.ok.inj hms
  refine ⟨hfits, s, t, u, hs, ht, hu, ?_, ?_, ?_, hdistributes s s.complement t t.complement⟩
  · rw [hpairs.len_eq, ← hlists.length_eq, ← hlists'.length_eq]
    rfl
  · rw [hpairs.toList_eq, hlists.toList_eq, hlists'.toList_eq]
    rfl
  · refine hlists.collected _ fun p => ?_
    obtain ⟨a, b⟩ := p
    revert a b
    decide

end Automata.StateSet
