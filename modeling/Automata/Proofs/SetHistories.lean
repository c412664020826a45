import Mathlib.Data.Finset.Card
import Mathlib.Data.Finset.SDiff
import Mathlib.Data.Finset.Range
import Mathlib.Data.List.Forall2
import Mathlib.Data.List.TakeWhile
import Automata.Proofs.Members

/-!
# Histories of bit sets

Bit sets are made, changed in place and combined by calls, in any order and on any number of sets.
Here the same calls are carried out on bit sets and on finite sets of numbers side by side. A call
is carried out in one way whatever the sets are made of (`SetOperations.perform`), so all that
depends on the representation is how the single operations compare: `simulates_plain` says that each
keeps a bit set and its finite set in step and gives the same answer. What one call preserves, a
history of calls preserves:

> `performAll_behaves`: after any history, every bit set behaves as the finite set that the same
> history has made, and every call of the history was answered alike.
-/

namespace Automata

/-! ## Finite sets of numbers -/

/-- A set of numbers below `extent`, as mathematics has it. -/
structure PlainSet where
  extent : Nat
  members : Finset Nat
  lt_extent : ∀ i ∈ members, i < extent

namespace PlainSet

def empty (extent : Nat) : PlainSet where
  extent := extent
  members := ∅
  lt_extent i hi := absurd hi (Finset.notMem_empty i)

def full (extent : Nat) : PlainSet where
  extent := extent
  members := Finset.range extent
  lt_extent _ hi := Finset.mem_range.mp hi

/-- Adds a number of the universe, and tells whether it was missing. Other numbers are refused. -/
def insert (m : PlainSet) (i : Nat) : Checked (Bool × PlainSet) :=
  if hi : i < m.extent then
    .ok (decide (i ∉ m.members),
      { extent := m.extent
        members := Insert.insert i m.members
        lt_extent := fun j hj => (Finset.mem_insert.mp hj).elim (fun h => h ▸ hi) (m.lt_extent j) })
  else .error (.bitBeyondUniverse i m.extent)

/-- Removes a number of the universe, and tells whether it was there. There is nothing to remove
outside of it. -/
def remove (m : PlainSet) (i : Nat) : Bool × PlainSet :=
  if i < m.extent then
    (decide (i ∈ m.members),
      { extent := m.extent
        members := m.members.erase i
        lt_extent := fun j hj => m.lt_extent j (Finset.mem_of_mem_erase hj) })
  else (false, m)

/-- Adds the numbers before the first that is not in the universe, which is the fault. -/
def extend (m : PlainSet) (items : List Nat) : PlainSet × Option Fault :=
  ({ extent := m.extent
     members := m.members ∪ (items.takeWhile (· < m.extent)).toFinset
     lt_extent := fun j hj => (Finset.mem_union.mp hj).elim (m.lt_extent j) fun h => by
       simpa using List.mem_takeWhile_imp (List.mem_toFinset.mp h) },
    (items.find? (m.extent ≤ ·)).map (.bitBeyondUniverse · m.extent))

def complement (m : PlainSet) : PlainSet where
  extent := m.extent
  members := Finset.range m.extent \ m.members
  lt_extent _ hi := Finset.mem_range.mp (Finset.mem_sdiff.mp hi).1

def intersection (m n : PlainSet) : Checked PlainSet :=
  if m.extent = n.extent then
    .ok
      { extent := m.extent
        members := m.members ∩ n.members
        lt_extent := fun i hi => m.lt_extent i (Finset.mem_inter.mp hi).1 }
  else .error (.universesDiffer m.extent n.extent)

def union (m n : PlainSet) : Checked PlainSet :=
  if h : m.extent = n.extent then
    .ok
      { extent := m.extent
        members := m.members ∪ n.members
        lt_extent := fun i hi => (Finset.mem_union.mp hi).elim (m.lt_extent i) fun hn =>
          h ▸ n.lt_extent i hn }
  else .error (.universesDiffer m.extent n.extent)

end PlainSet

/-! ## Calls -/

/-- A call on a collection of sets, which are named by their positions. Calls that give a new set
put it behind the others. -/
inductive SetCall where
  | new (extent : Nat)
  | full (extent : Nat)
  | clone (j : Nat)
  | insert (j i : Nat)
  | remove (j i : Nat)
  | extend (j : Nat) (items : List Nat)
  | complement (j : Nat)
  | intersection (j k : Nat)
  | union (j k : Nat)

/-- What comes of a call. -/
inductive SetReply where
  /-- There is no set at the position that the call names. -/
  | noSuchSet
  | done
  | answered (b : Bool)
  | failed (fault : Fault)
  deriving DecidableEq

/-- What there is to do with sets that have a universe. -/
structure SetOperations (σ : Type) where
  empty : Nat → σ
  full : Nat → σ
  insert : σ → Nat → Checked (Bool × σ)
  remove : σ → Nat → Bool × σ
  extend : σ → List Nat → σ × Option Fault
  complement : σ → σ
  intersection : σ → σ → Checked σ
  union : σ → σ → Checked σ

def BitSet.operations : SetOperations BitSet :=
  ⟨empty, full, insert, remove, extend, complement, intersection, union⟩

def PlainSet.operations : SetOperations PlainSet :=
  ⟨empty, full, insert, remove, extend, complement, intersection, union⟩

namespace SetOperations

variable {σ τ : Type}

/-- Puts a new set behind the others, if there is one. -/
def keep (sets : List σ) : Checked σ → List σ × SetReply
  | .ok s => (sets ++ [s], .done)
  | .error fault => (sets, .failed fault)

/-- Goes on with the set at a position, if there is one. -/
def withSet (sets : List σ) (j : Nat) (f : σ → List σ × SetReply) : List σ × SetReply :=
  match sets[j]? with
  | some s => f s
  | none => (sets, .noSuchSet)

/-- Carries out a call. After a fault the sets are what they were, except that an `extend` keeps
what it has added before. -/
def perform (o : SetOperations σ) (sets : List σ) : SetCall → List σ × SetReply
  | .new extent => keep sets (.ok (o.empty extent))
  | .full extent => keep sets (.ok (o.full extent))
  | .clone j => withSet sets j fun s => keep sets (.ok s)
  | .insert j i => withSet sets j fun s =>
    match o.insert s i with
    | .ok (fresh, t) => (sets.set j t, .answered fresh)
    | .error fault => (sets, .failed fault)
  | .remove j i => withSet sets j fun s =>
    (sets.set j (o.remove s i).2, .answered (o.remove s i).1)
  | .extend j items => withSet sets j fun s =>
    (sets.set j (o.extend s items).1, (o.extend s items).2.elim .done .failed)
  | .complement j => withSet sets j fun s => keep sets (.ok (o.complement s))
  | .intersection j k => withSet sets j fun s => withSet sets k fun t =>
    keep sets (o.intersection s t)
  | .union j k => withSet sets j fun s => withSet sets k fun t => keep sets (o.union s t)

/-- Carries out calls in order, and gives their replies. -/
def performAll (o : SetOperations σ) : List σ → List SetCall → List σ × List SetReply
  | sets, [] => (sets, [])
  | sets, call :: calls =>
    let next := o.perform sets call
    let last := o.performAll next.1 calls
    (last.1, next.2 :: last.2)

/-! ## Simulation -/

/-- Both computations give values that `R` relates, or both meet the same fault. -/
inductive Alike {α β : Type} (R : α → β → Prop) : Checked α → Checked β → Prop where
  | ok {a : α} {b : β} : R a b → Alike R (.ok a) (.ok b)
  | error (fault : Fault) : Alike R (.error fault) (.error fault)

/-- The operations keep sets related that `R` relates, and tell the same about them. -/
structure Simulates (R : σ → τ → Prop) (o : SetOperations σ) (p : SetOperations τ) : Prop where
  empty : ∀ extent, R (o.empty extent) (p.empty extent)
  full : ∀ extent, R (o.full extent) (p.full extent)
  insert : ∀ {s m}, R s m → ∀ i,
    Alike (fun x y => x.1 = y.1 ∧ R x.2 y.2) (o.insert s i) (p.insert m i)
  remove : ∀ {s m}, R s m → ∀ i,
    (o.remove s i).1 = (p.remove m i).1 ∧ R (o.remove s i).2 (p.remove m i).2
  extend : ∀ {s m}, R s m → ∀ items,
    (o.extend s items).2 = (p.extend m items).2 ∧ R (o.extend s items).1 (p.extend m items).1
  complement : ∀ {s m}, R s m → R (o.complement s) (p.complement m)
  intersection : ∀ {s t m n}, R s m → R t n → Alike R (o.intersection s t) (p.intersection m n)
  union : ∀ {s t m n}, R s m → R t n → Alike R (o.union s t) (p.union m n)

/-- The replies are the same, and the sets are related one by one. -/
def Corresponds (R : σ → τ → Prop) (x : List σ × SetReply) (y : List τ × SetReply) : Prop :=
  x.2 = y.2 ∧ List.Forall₂ R x.1 y.1

section Lists

variable {R : σ → τ → Prop} {sets : List σ} {plain : List τ}

/-- Putting two related sets in the same place keeps all sets related. -/
theorem forall₂_set (h : List.Forall₂ R sets plain) {s : σ} {m : τ} (hsm : R s m) :
    ∀ j, List.Forall₂ R (sets.set j s) (plain.set j m) := by
  induction h with
  | nil => intro j; exact .nil
  | cons hhead htail ih =>
    intro j
    cases j with
    | zero => exact .cons hsm htail
    | succ j => exact .cons hhead (ih j)

/-- At each position there is a set on both sides, and they are related, or on neither. -/
theorem forall₂_getElem? (h : List.Forall₂ R sets plain) :
    ∀ j : Nat, sets[j]? = none ∧ plain[j]? = none ∨
      ∃ s m, sets[j]? = some s ∧ plain[j]? = some m ∧ R s m := by
  induction h with
  | nil => intro j; exact Or.inl ⟨rfl, rfl⟩
  | cons hhead _ ih =>
    intro j
    cases j with
    | zero => exact Or.inr ⟨_, _, rfl, rfl, hhead⟩
    | succ j => exact ih j

theorem related_of_getElem? (h : List.Forall₂ R sets plain) {j : Nat} {s : σ} {m : τ}
    (hs : sets[j]? = some s) (hm : plain[j]? = some m) : R s m := by
  rcases forall₂_getElem? h j with ⟨hnone, _⟩ | ⟨s', m', hs', hm', hsm⟩
  · rw [hs] at hnone
    cases hnone
  · rw [hs] at hs'
    rw [hm] at hm'
    cases hs'
    cases hm'
    exact hsm

/-- A new set goes to the end on both sides, or its fault is answered on both sides. -/
theorem keep_corresponds (h : List.Forall₂ R sets plain) {x : Checked σ} {y : Checked τ}
    (hxy : Alike R x y) : Corresponds R (keep sets x) (keep plain y) := by
  cases hxy with
  | ok hsm => exact ⟨rfl, List.rel_append h (.cons hsm .nil)⟩
  | error fault => exact ⟨rfl, h⟩

/-- A position names a set on both sides or on neither, so it is enough to compare what is done with
related sets. -/
theorem withSet_corresponds (h : List.Forall₂ R sets plain) (j : Nat)
    {f : σ → List σ × SetReply} {g : τ → List τ × SetReply}
    (hfg : ∀ s m, R s m → Corresponds R (f s) (g m)) :
    Corresponds R (withSet sets j f) (withSet plain j g) := by
  unfold withSet
  rcases forall₂_getElem? h j with ⟨hs, hm⟩ | ⟨s, m, hs, hm, hsm⟩
  · rw [hs, hm]
    exact ⟨rfl, h⟩
  · rw [hs, hm]
    exact hfg s m hsm

end Lists

namespace Simulates

variable {R : σ → τ → Prop} {o : SetOperations σ} {p : SetOperations τ}

/-- A call keeps related sets related, and is answered alike. -/
theorem perform_corresponds (h : Simulates R o p) {sets : List σ} {plain : List τ}
    (hsets : List.Forall₂ R sets plain) (call : SetCall) :
    Corresponds R (o.perform sets call) (p.perform plain call) := by
  cases call with
  | new extent => exact keep_corresponds hsets (.ok (h.empty extent))
  | full extent => exact keep_corresponds hsets (.ok (h.full extent))
  | clone j =>
    refine withSet_corresponds hsets j fun s m hsm => ?_
    exact keep_corresponds hsets (.ok hsm)
  | insert j i =>
    refine withSet_corresponds hsets j fun s m hsm => ?_
    -- a number that is refused leaves both collections as they were
    have hins := h.insert hsm i
    generalize o.insert s i = x at hins
    generalize p.insert m i = y at hins
    cases hins with
    | ok htn => exact ⟨congrArg SetReply.answered htn.1, forall₂_set hsets htn.2 j⟩
    | error fault => exact ⟨rfl, hsets⟩
  | remove j i =>
    refine withSet_corresponds hsets j fun s m hsm => ?_
    obtain ⟨hheld, htn⟩ := h.remove hsm i
    exact ⟨congrArg SetReply.answered hheld, forall₂_set hsets htn j⟩
  | extend j items =>
    refine withSet_corresponds hsets j fun s m hsm => ?_
    obtain ⟨hfault, htn⟩ := h.extend hsm items
    exact ⟨congrArg (Option.elim · SetReply.done SetReply.failed) hfault, forall₂_set hsets htn j⟩
  | complement j =>
    refine withSet_corresponds hsets j fun s m hsm => ?_
    exact keep_corresponds hsets (.ok (h.complement hsm))
  | intersection j k =>
    refine withSet_corresponds hsets j fun s m hsm => ?_
    -- the second set is looked for among the same sets, and it may be the first
    refine withSet_corresponds hsets k fun t n htn => ?_
    exact keep_corresponds hsets (h.intersection hsm htn)
  | union j k =>
    refine withSet_corresponds hsets j fun s m hsm => ?_
    refine withSet_corresponds hsets k fun t n htn => ?_
    exact keep_corresponds hsets (h.union hsm htn)

/-- So does a history of calls. -/
theorem performAll_corresponds (h : Simulates R o p) : ∀ (calls : List SetCall) {sets : List σ}
    {plain : List τ}, List.Forall₂ R sets plain →
      (o.performAll sets calls).2 = (p.performAll plain calls).2 ∧
        List.Forall₂ R (o.performAll sets calls).1 (p.performAll plain calls).1 := by
  intro calls
  induction calls with
  | nil => intro sets plain hsets; exact ⟨rfl, hsets⟩
  | cons call calls ih =>
    intro sets plain hsets
    obtain ⟨hreply, hnext⟩ := h.perform_corresponds hsets call
    obtain ⟨hreplies, hlast⟩ := ih hnext
    unfold performAll
    exact ⟨congrArg₂ List.cons hreply hreplies, hlast⟩

end Simulates

end SetOperations

/-! ## Bit sets against finite sets -/

namespace BitSet

open SetOperations

/-- The bit set has the universe and the members of the finite set. -/
structure Represents (s : BitSet) (m : PlainSet) : Prop where
  extent_eq : s.extent = m.extent
  contains_eq : ∀ i, s.contains i = decide (i ∈ m.members)

namespace Represents

variable {s t : BitSet} {m n : PlainSet}

/-- Both sides take the number and tell whether it was missing, or both refuse it. -/
theorem insert_alike (h : s.Represents m) (i : Nat) :
    Alike (fun x y => x.1 = y.1 ∧ x.2.Represents y.2) (s.insert i) (m.insert i) := by
  unfold PlainSet.insert
  by_cases hi : i < m.extent
  · obtain ⟨t, hinsert, hextent, hcontains⟩ := insert_eq_ok (s := s) (h.extent_eq ▸ hi)
    rw [hinsert, dif_pos hi]
    refine .ok ⟨?_, hextent.trans h.extent_eq, fun j => ?_⟩
    · rw [h.contains_eq, decide_not]
    · rw [hcontains, h.contains_eq, ← Bool.decide_or]
      exact decide_eq_decide.mpr (by rw [Finset.mem_insert, eq_comm])
  · have hrefused : s.insert i = .error (.bitBeyondUniverse i s.extent) :=
      dif_neg (h.extent_eq ▸ hi)
    rw [hrefused, dif_neg hi, h.extent_eq]
    exact .error _

/-- Both sides remove the number and tell whether it was there. Beyond the universe it never was. -/
theorem remove (h : s.Represents m) (i : Nat) :
    (s.remove i).1 = (m.remove i).1 ∧ (s.remove i).2.Represents (m.remove i).2 := by
  have hcontains : ∀ j, (s.remove i).2.contains j = decide (j ∈ m.members ∧ j ≠ i) := by
    intro j
    rw [contains_remove, h.contains_eq, Bool.and_comm, ← decide_not, ← Bool.decide_and]
    exact decide_eq_decide.mpr (and_congr_right fun _ => not_congr eq_comm)
  unfold PlainSet.remove
  by_cases hi : i < m.extent
  · rw [if_pos hi]
    refine ⟨h.contains_eq i, h.extent_eq, fun j => ?_⟩
    rw [hcontains]
    simp only [Finset.mem_erase, and_comm]
  · have hnot : i ∉ m.members := fun hmem => hi (m.lt_extent i hmem)
    rw [if_neg hi]
    refine ⟨(h.contains_eq i).trans (decide_eq_false hnot), h.extent_eq, fun j => ?_⟩
    rw [hcontains]
    refine decide_eq_decide.mpr (and_iff_left_of_imp fun hj hji => hnot (hji ▸ hj))

/-- Both sides take the numbers before the first that is refused, and refuse the same one. -/
theorem extend (h : s.Represents m) (items : List Nat) :
    (s.extend items).2 = (m.extend items).2 ∧
      (s.extend items).1.Represents (m.extend items).1 := by
  obtain ⟨hfault, hextent, hcontains⟩ := extend_eq items s
  rw [h.extent_eq] at hfault hextent hcontains
  refine ⟨hfault, hextent, fun j => ?_⟩
  rw [hcontains, h.contains_eq, ← Bool.decide_or]
  simp only [PlainSet.extend, Finset.mem_union, List.mem_toFinset, or_comm]

theorem complement (h : s.Represents m) : s.complement.Represents m.complement := by
  refine ⟨h.extent_eq, fun i => ?_⟩
  simp only [PlainSet.complement, Finset.mem_sdiff, Finset.mem_range]
  by_cases hi : i < m.extent
  · rw [contains_complement (h.extent_eq ▸ hi), h.contains_eq, ← decide_not]
    simp only [hi, true_and]
  · rw [contains_eq_false (s := s.complement) (Nat.le_of_not_lt (h.extent_eq ▸ hi))]
    simp only [hi, false_and, decide_false]

/-- Both sides intersect, or both refuse to because the universes differ. -/
theorem intersection_alike (h : s.Represents m) (h' : t.Represents n) :
    Alike Represents (s.intersection t) (m.intersection n) := by
  unfold PlainSet.intersection
  by_cases hextent : m.extent = n.extent
  · obtain ⟨u, hu, huextent, hcontains⟩ :=
      intersection_eq_ok (h.extent_eq.trans (hextent.trans h'.extent_eq.symm))
    rw [hu, if_pos hextent]
    refine .ok ⟨huextent.trans h.extent_eq, fun i => ?_⟩
    rw [hcontains, h.contains_eq, h'.contains_eq, ← Bool.decide_and]
    simp only [Finset.mem_inter]
  · have hrefused : s.intersection t = .error (.universesDiffer s.extent t.extent) :=
      dif_neg (by rwa [h.extent_eq, h'.extent_eq])
    rw [hrefused, if_neg hextent, h.extent_eq, h'.extent_eq]
    exact .error _

theorem union_alike (h : s.Represents m) (h' : t.Represents n) :
    Alike Represents (s.union t) (m.union n) := by
  unfold PlainSet.union
  by_cases hextent : m.extent = n.extent
  · obtain ⟨u, hu, huextent, hcontains⟩ :=
      union_eq_ok (h.extent_eq.trans (hextent.trans h'.extent_eq.symm))
    rw [hu, dif_pos hextent]
    refine .ok ⟨huextent.trans h.extent_eq, fun i => ?_⟩
    rw [hcontains, h.contains_eq, h'.contains_eq, ← Bool.decide_or]
    simp only [Finset.mem_union]
  · have hrefused : s.union t = .error (.universesDiffer s.extent t.extent) :=
      dif_neg (by rwa [h.extent_eq, h'.extent_eq])
    rw [hrefused, dif_neg hextent, h.extent_eq, h'.extent_eq]
    exact .error _

end Represents

/-- Each operation keeps a bit set and its finite set in step, and tells the same about them. -/
theorem simulates_plain : Simulates Represents operations PlainSet.operations where
  empty extent := ⟨rfl, fun i => by
    show (empty extent).contains i = _
    rw [contains_empty]
    rfl⟩
  full extent := ⟨rfl, fun i => by
    simp only [operations, PlainSet.operations, PlainSet.full, Finset.mem_range]
    by_cases hi : i < extent
    · rw [contains_full hi, decide_eq_true hi]
    · rw [contains_eq_false (s := full extent) (Nat.le_of_not_lt hi), decide_eq_false hi]⟩
  insert h := h.insert_alike
  remove h := h.remove
  extend h := h.extend
  complement h := h.complement
  intersection h h' := h.intersection_alike h'
  union h h' := h.union_alike h'

/-! ## What a represented set is seen to do -/

/-- The bit set behaves as the finite set, and its words are laid out as they should be. -/
structure Behaves (s : BitSet) (m : PlainSet) : Prop where
  extent_eq : s.extent = m.extent
  contains_eq : ∀ i, s.contains i = decide (i ∈ m.members)
  len_eq : s.len = m.members.card
  isEmpty_eq : s.isEmpty = decide (m.members = ∅)
  /-- Outside of the universe nothing can be added, -/
  insert_outside : ∀ i, m.extent ≤ i → s.insert i = .error (.bitBeyondUniverse i m.extent)
  /-- and nothing is removed, not even from the words. -/
  remove_outside : ∀ i, m.extent ≤ i → s.remove i = (false, s)
  /-- There are as many words as the universe needs. -/
  size_words : s.words.size = (m.extent + 63) / 64
  /-- Their bits are the members, -/
  testBit_words : ∀ (j k : Nat) (hj : j < s.words.size), k < 64 →
    s.words[j].toNat.testBit k = decide (64 * j + k ∈ m.members)
  /-- and those from the extent on are zero. -/
  testBit_tail : ∀ (j k : Nat) (hj : j < s.words.size), k < 64 → m.extent ≤ 64 * j + k →
    s.words[j].toNat.testBit k = false

namespace Represents

variable {s t : BitSet} {m n : PlainSet}

theorem members_eq (h : s.Represents m) :
    m.members = ((List.range s.extent).filter s.contains).toFinset := by
  ext i
  rw [List.mem_toFinset, List.mem_filter, List.mem_range, h.contains_eq, decide_eq_true_eq,
    h.extent_eq]
  exact (and_iff_right_of_imp (m.lt_extent i)).symm

/-- Counting the bits counts the members. -/
theorem card_members (h : s.Represents m) : m.members.card = s.len := by
  rw [h.members_eq, BitSet.len_eq]
  exact List.toFinset_card_of_nodup (List.nodup_range.filter _)

theorem isEmpty_eq (h : s.Represents m) : s.isEmpty = decide (m.members = ∅) := by
  rw [Bool.eq_iff_iff, isEmpty_iff, decide_eq_true_eq, Finset.eq_empty_iff_forall_notMem]
  refine forall_congr' fun i => ?_
  rw [h.contains_eq, decide_eq_false_iff_not]

/-- Beyond the universe there is nothing to remove, and the bit set stays as it is, tail and all. -/
theorem remove_outside (h : s.Represents m) {i : Nat} (hi : m.extent ≤ i) :
    s.remove i = (false, s) := by
  have hnot : s.contains i = false := contains_eq_false (h.extent_eq ▸ hi)
  refine Prod.ext hnot (BitSet.ext rfl fun j hj => ?_)
  have hne : i ≠ j := by
    have hlt : j < s.extent := hj
    rw [h.extent_eq] at hlt
    omega
  rw [contains_remove, decide_eq_false hne, Bool.not_false, Bool.true_and]

/-- The words hold the members and nothing else: bit `k` of word `j` is for the number `64 * j +
k`. -/
theorem testBit_words (h : s.Represents m) {j k : Nat} (hj : j < s.words.size) (hk : k < 64) :
    s.words[j].toNat.testBit k = decide (64 * j + k ∈ m.members) := by
  rw [← Words.holds_eq_testBit _ hk, ← Words.bit_eq_holds hj hk]
  exact h.contains_eq (64 * j + k)

/-- Representing a finite set is all it takes to behave as it does. -/
theorem behaves (h : s.Represents m) : s.Behaves m where
  extent_eq := h.extent_eq
  contains_eq := h.contains_eq
  len_eq := h.card_members.symm
  isEmpty_eq := h.isEmpty_eq
  insert_outside i hi := by
    rw [← h.extent_eq] at hi ⊢
    exact dif_neg (Nat.not_lt_of_le hi)
  remove_outside i hi := h.remove_outside hi
  size_words := by
    rw [s.size_words, h.extent_eq]
    rfl
  testBit_words j k hj hk := h.testBit_words hj hk
  testBit_tail j k hj hk htail := by
    rw [h.testBit_words hj hk]
    exact decide_eq_false fun hmem => Nat.not_lt_of_le htail (m.lt_extent _ hmem)

/-- Two sets are found to intersect when they have a common member. Their universes play no part. -/
theorem intersects_iff (h : s.Represents m) (h' : t.Represents n) :
    s.intersects t = true ↔ ∃ i, i ∈ m.members ∧ i ∈ n.members := by
  rw [BitSet.intersects_iff]
  refine exists_congr fun i => ?_
  rw [h.contains_eq, h'.contains_eq, decide_eq_true_eq, decide_eq_true_eq]

end Represents

/-- **Bit sets are sets.** Whatever is done to any number of bit sets, of any universes, each of
them behaves as the finite set to which the same was done, each call was answered as for the finite
sets, and two of them intersect, also over different universes, when they have a common member. -/
theorem performAll_behaves (calls : List SetCall) :
    ∃ sets plain replies, operations.performAll [] calls = (sets, replies) ∧
      PlainSet.operations.performAll [] calls = (plain, replies) ∧
      List.Forall₂ Behaves sets plain ∧
      ∀ (j k : Nat) (s t : BitSet) (m n : PlainSet), sets[j]? = some s → plain[j]? = some m →
        sets[k]? = some t → plain[k]? = some n →
        (s.intersects t = true ↔ ∃ i, i ∈ m.members ∧ i ∈ n.members) := by
  obtain ⟨hreplies, hsets⟩ := simulates_plain.performAll_corresponds calls .nil
  refine ⟨_, _, _, rfl, Prod.ext rfl hreplies.symm, hsets.imp fun _ _ => Represents.behaves, ?_⟩
  intro j k s t m n hs hm ht hn
  exact (related_of_getElem? hsets hs hm).intersects_iff (related_of_getElem? hsets ht hn)

/-- Calls on sets over the universes `70` and `64`, three of which are refused. -/
def mixedUniverses : List SetCall :=
  [.full 70, .remove 0 64, .complement 0, .insert 1 3, .insert 1 70, .extend 1 [69, 5, 70, 6],
    .remove 1 99, .new 64, .extend 2 [3, 63], .union 1 2, .clone 2, .insert 3 0]

/-- The second set of the history holds `3`, `5`, `64` and `69` at its end, and the third `3` and
`63`: the numbers behind the failing `70` were not added, and the clone has gone its own way. -/
theorem performAll_behaves_mixedUniverses :
    ∃ sets s t, operations.performAll [] mixedUniverses = (sets,
        [.done, .answered true, .done, .answered true, .failed (.bitBeyondUniverse 70 70),
          .failed (.bitBeyondUniverse 70 70), .answered false, .done, .done,
          .failed (.universesDiffer 70 64), .done, .answered true]) ∧
      sets[1]? = some s ∧ sets[2]? = some t ∧ (∀ i, s.contains i = decide (i ∈ [3, 5, 64, 69])) ∧
      s.len = 4 ∧ (∀ i, t.contains i = decide (i ∈ [3, 63])) ∧ s.intersects t = true := by
  obtain ⟨sets, plain, replies, hsets, hplain, hbehaves, hintersects⟩ :=
    performAll_behaves mixedUniverses
  -- on finite sets the history is carried out by evaluation
  have hreplies : (PlainSet.operations.performAll [] mixedUniverses).2 =
      [.done, .answered true, .done, .answered true, .failed (.bitBeyondUniverse 70 70),
        .failed (.bitBeyondUniverse 70 70), .answered false, .done, .done,
        .failed (.universesDiffer 70 64), .done, .answered true] := by decide
  have hsecond : (PlainSet.operations.performAll [] mixedUniverses).1[1]?.map PlainSet.members =
      some {3, 5, 64, 69} := by decide
  have hthird : (PlainSet.operations.performAll [] mixedUniverses).1[2]?.map PlainSet.members =
      some {3, 63} := by decide
  rw [hplain] at hreplies hsecond hthird
  obtain ⟨m, hm, hmembers⟩ := Option.map_eq_some_iff.mp hsecond
  obtain ⟨n, hn, hnembers⟩ := Option.map_eq_some_iff.mp hthird
  have hbehaving : ∀ {i : Nat} {y : PlainSet}, plain[i]? = some y →
      ∃ x, sets[i]? = some x ∧ x.Behaves y := by
    intro i y hy
    rcases forall₂_getElem? hbehaves i with ⟨_, hnone⟩ | ⟨x, y', hx, hy', h⟩
    · rw [hnone] at hy
      cases hy
    · rw [hy] at hy'
      cases hy'
      exact ⟨x, hx, h⟩
  obtain ⟨s, hs, hsm⟩ := hbehaving hm
  obtain ⟨t, ht, htn⟩ := hbehaving hn
  refine ⟨sets, s, t, hreplies ▸ hsets, hs, ht, fun i => ?_, ?_, fun i => ?_, ?_⟩
  · rw [hsm.contains_eq, hmembers]
    simp
  · rw [hsm.len_eq, hmembers]
    rfl
  · rw [htn.contains_eq, hnembers]
    simp
  · refine (hintersects 1 2 s t m n hs hm ht hn).mpr ⟨3, ?_, ?_⟩
    · rw [hmembers]
      decide
    · rw [hnembers]
      decide

end BitSet

end Automata
