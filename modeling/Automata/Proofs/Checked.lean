import Automata.Fault
import Automata.Journal

/-!
# Reading checked computations

A checked computation is a chain of steps, each of which may end it. The lemmas here take such a
chain apart: a chain gives a value when each of its steps does, and a traversal of a list gives the
list of the values of its members. Journals are read through `outcome`, so that what was written on
the way plays no part in what a computation answers.
-/

namespace Automata

variable {ε α β : Type}

/-- The computation ends in an error. -/
def Fails (x : Except ε α) : Prop := ∃ e, x = .error e

@[simp] theorem fails_error (e : ε) : Fails (.error e : Except ε α) := ⟨e, rfl⟩

@[simp] theorem not_fails_ok (a : α) : ¬Fails (.ok a : Except ε α) := by
  rintro ⟨e, h⟩
  cases h

instance (x : Except ε α) : Decidable (Fails x) :=
  match x with
  | .ok a => isFalse (not_fails_ok a)
  | .error e => isTrue (fails_error e)

/-- A computation that does not fail gives a value. -/
theorem not_fails_iff {x : Except ε α} : ¬Fails x ↔ ∃ a, x = .ok a := by
  cases x with
  | error e => exact ⟨fun h => absurd (fails_error e) h, fun ⟨_, h⟩ => by cases h⟩
  | ok a => exact ⟨fun _ => ⟨a, rfl⟩, fun _ => not_fails_ok a⟩

/-- The computation gives a truth value, and it says whether `p` holds. -/
def Decides (x : Except ε Bool) (p : Prop) : Prop := ∃ b, x = .ok b ∧ (b = true ↔ p)

/-- Statements that say the same are decided by the same answer. -/
theorem Decides.congr {x : Except ε Bool} {p q : Prop} (h : Decides x p) (hpq : p ↔ q) :
    Decides x q := by
  obtain ⟨b, hb, hp⟩ := h
  exact ⟨b, hb, hp.trans hpq⟩

/-! ## Chains -/

@[simp] theorem ok_bind (a : α) (f : α → Except ε β) : (Except.ok a >>= f) = f a := rfl

@[simp] theorem error_bind (e : ε) (f : α → Except ε β) : (Except.error e >>= f) = .error e := rfl

@[simp] theorem pure_eq_ok (a : α) : (pure a : Except ε α) = .ok a := rfl

@[simp] theorem mapError_ok {ε' : Type} (f : ε → ε') (a : α) :
    (Except.ok a).mapError f = .ok a := rfl

/-- Renaming errors gives no value that was not there. -/
theorem mapError_eq_ok {ε' : Type} {x : Except ε α} {f : ε → ε'} {a : α} :
    x.mapError f = .ok a ↔ x = .ok a := by
  cases x with
  | ok b => simp
  | error e => exact iff_of_false nofun nofun

/-- A chain gives a value exactly when its first step does and the rest does from there. -/
theorem bind_eq_ok {x : Except ε α} {f : α → Except ε β} {b : β} :
    (x >>= f) = .ok b ↔ ∃ a, x = .ok a ∧ f a = .ok b := by
  cases x with
  | error e =>
    constructor
    · intro h; cases h
    · rintro ⟨_, h, _⟩; cases h
  | ok a =>
    constructor
    · intro h
      exact ⟨a, rfl, h⟩
    · rintro ⟨_, h, hf⟩
      cases h
      exact hf

/-- A chain fails when its first step fails, or the rest fails from there. -/
theorem fails_bind {x : Except ε α} {f : α → Except ε β} :
    Fails (x >>= f) ↔ Fails x ∨ ∃ a, x = .ok a ∧ Fails (f a) := by
  cases x with
  | error e => exact ⟨fun _ => Or.inl (fails_error e), fun _ => fails_error e⟩
  | ok a =>
    constructor
    · intro h
      exact Or.inr ⟨a, rfl, h⟩
    · rintro (h | ⟨_, h, hf⟩)
      · exact absurd h (not_fails_ok a)
      · cases h
        exact hf

/-- A function that always gives a value is a plain function. -/
theorem exists_eq_ok {γ : Type} {f : α → β → Except ε γ} (h : ∀ a b, ∃ c, f a b = .ok c) :
    ∃ g : α → β → γ, f = fun a b => .ok (g a b) :=
  ⟨fun a b => (h a b).choose, funext fun a => funext fun b => (h a b).choose_spec⟩

/-! ## Traversals -/

/-- A traversal whose steps all give a value gives a value for each member of the list; what is
known of each step carries over to the lists. -/
theorem mapM_ok_map {γ : Type} {f : α → Except ε β} {g : β → γ} {h : α → γ} :
    ∀ (l : List α), (∀ a ∈ l, ∃ b, f a = .ok b ∧ g b = h a) →
      ∃ bs, l.mapM f = .ok bs ∧ bs.map g = l.map h := by
  intro l
  induction l with
  | nil => intro _; exact ⟨[], rfl, rfl⟩
  | cons a l ih =>
    intro hf
    obtain ⟨b, hb, hg⟩ := hf a (List.mem_cons_self ..)
    obtain ⟨bs, hbs, hgs⟩ := ih fun c hc => hf c (List.mem_cons_of_mem _ hc)
    refine ⟨b :: bs, ?_, ?_⟩
    · rw [List.mapM_cons, hb, hbs]
      rfl
    · rw [List.map_cons, List.map_cons, hg, hgs]

/-- A traversal by a function that is known where it matters. -/
theorem mapM_eq_ok {f : α → Except ε β} {g : α → β} (l : List α) (h : ∀ a ∈ l, f a = .ok (g a)) :
    l.mapM f = .ok (l.map g) := by
  obtain ⟨bs, hbs, hmap⟩ := mapM_ok_map (g := id) (h := g) l fun a ha => ⟨g a, h a ha, rfl⟩
  rw [List.map_id] at hmap
  rw [hbs, hmap]

/-- A traversal fails when one of its steps does. -/
theorem fails_mapM {f : α → Except ε β} (l : List α) :
    Fails (l.mapM f) ↔ ∃ a ∈ l, Fails (f a) := by
  induction l with
  | nil =>
    refine iff_of_false (not_fails_ok []) fun h => ?_
    obtain ⟨a, ha, _⟩ := h
    exact List.not_mem_nil ha
  | cons a l ih =>
    rw [List.mapM_cons, fails_bind]
    cases h : f a with
    | error e => simp [h]
    | ok b => simp [h, fails_bind, ih]

/-- `a` is the first member of the list that does not satisfy `p`. -/
def FirstNot (p : α → Prop) (l : List α) (a : α) : Prop :=
  ∃ before after, l = before ++ a :: after ∧ (∀ b ∈ before, p b) ∧ ¬p a

/-- There is one first member at most. -/
theorem FirstNot.unique {p : α → Prop} {l : List α} {a b : α} (ha : FirstNot p l a)
    (hb : FirstNot p l b) : a = b := by
  obtain ⟨before, after, rfl, hbefore, hnota⟩ := ha
  obtain ⟨before', after', heq, hbefore', hnotb⟩ := hb
  rcases List.append_eq_append_iff.mp heq with ⟨gap, hgap, hrest⟩ | ⟨gap, hgap, hrest⟩
  · cases gap with
    | nil => exact (List.cons.inj hrest).1
    | cons c gap =>
      obtain rfl := (List.cons.inj hrest).1
      exact absurd (hbefore' a (hgap ▸ List.mem_append_right _ List.mem_cons_self)) hnota
  · cases gap with
    | nil => exact (List.cons.inj hrest).1.symm
    | cons c gap =>
      obtain rfl := (List.cons.inj hrest).1
      exact absurd (hbefore b (hgap ▸ List.mem_append_right _ List.mem_cons_self)) hnotb

/-- If a member does not satisfy `p`, one of them is the first. -/
theorem exists_firstNot {p : α → Prop} : ∀ (l : List α), (∃ a ∈ l, ¬p a) →
    ∃ a, FirstNot p l a := by
  intro l
  induction l with
  | nil =>
    intro h
    obtain ⟨a, ha, _⟩ := h
    exact absurd ha List.not_mem_nil
  | cons b l ih =>
    intro h
    by_cases hb : p b
    · obtain ⟨a, ha, hnot⟩ := h
      have hal : a ∈ l := (List.mem_cons.mp ha).resolve_left fun heq => hnot (heq ▸ hb)
      obtain ⟨c, before, after, rfl, hbefore, hc⟩ := ih ⟨a, hal, hnot⟩
      exact ⟨c, b :: before, after, rfl, List.forall_mem_cons.mpr ⟨hb, hbefore⟩, hc⟩
    · exact ⟨b, [], l, rfl, fun _ h => absurd h List.not_mem_nil, hb⟩

/-- A traversal ends with the error of the first step that fails. -/
theorem mapM_eq_error {f : α → Except ε β} {before after : List α} {a : α} {e : ε}
    (hbefore : ∀ b ∈ before, ¬Fails (f b)) (ha : f a = .error e) :
    (before ++ a :: after).mapM f = .error e := by
  have hfirst : ¬Fails (before.mapM f) := fun h => by
    obtain ⟨b, hb, hfails⟩ := (fails_mapM before).mp h
    exact hbefore b hb hfails
  obtain ⟨bs, hbs⟩ := not_fails_iff.mp hfirst
  rw [List.mapM_append, hbs, ok_bind, List.mapM_cons, ha]
  rfl

/-- A selection by a test that is known where it matters. -/
theorem filterM_eq_ok {f : α → Except ε Bool} {p : α → Bool} (l : List α)
    (h : ∀ a ∈ l, f a = .ok (p a)) : l.filterM f = .ok (l.filter p) := by
  -- what is selected is collected in front of `kept`, the last one first
  have haux : ∀ (l kept : List α), (∀ a ∈ l, f a = .ok (p a)) →
      l.filterAuxM f kept = .ok ((l.filter p).reverse ++ kept) := by
    intro l
    induction l with
    | nil => exact fun kept _ => rfl
    | cons a l ih =>
      intro kept hf
      have ha : f a = .ok (p a) := hf a (List.mem_cons_self ..)
      rw [List.filterAuxM, ha, ok_bind, ih _ fun b hb => hf b (List.mem_cons_of_mem _ hb)]
      cases hp : p a with
      | true => rw [List.filter_cons_of_pos hp, List.reverse_cons, List.append_assoc]; rfl
      | false => rw [List.filter_cons_of_neg (Bool.not_eq_true _ ▸ hp)]; rfl
  rw [List.filterM, haux l [] h, List.append_nil, ok_bind, List.reverse_reverse]
  rfl

/-! ## Journals -/

namespace Journal

variable {ρ : Type}

@[simp] theorem outcome_liftM (x : Except ε α) :
    (liftM x : Journal ρ ε α).outcome = x := rfl

end Journal

end Automata
