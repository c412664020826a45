import Automata.Language.Search
import Automata.Proofs.Runs
import Automata.Proofs.Shortlex

/-!
# What a breadth-first search knows

A search remembers the states it discovered and their parents. Behind that stands a book: with each
discovered state the word along which it was discovered. `Search.Records` says that the book is
right (the word leads to the state) and that it is in order: the words increase strictly in the
shortlex order, and each is the word of an earlier state with one more symbol. `Search.Progress`
adds what the search has done so far: of the first `k` states all successors are in the book, under
words that are no later than the way through the state.

Together they give `Progress.expandedOrLater`: a run leads to an expanded state, whose word is then
no later than the word of the run, or to the first state that was not expanded, or its word comes
after that of this first state. So when every state is expanded the book holds what runs lead to,
and when the search stops before, it has seen all that comes earlier. Faults of successors need no
exception: a search stops at the first, and says no more than it has seen.
-/

namespace Automata

/-- What stands in a list stands at the same place in every longer one. -/
theorem getElem?_mono {α : Type} {l l' : List α} (h : l <+: l') {i : Nat} {x : α}
    (hx : l[i]? = some x) : l'[i]? = some x := by
  obtain ⟨rest, rfl⟩ := h
  rw [List.getElem?_append_left (List.getElem?_eq_some_iff.mp hx).1, hx]

namespace Search

variable {S Q : Type} [Indexed Q]

section Discover

variable [LawfulIndexed Q]

/-- A state that was visited is left as it is. -/
theorem discover_known {t : Search S Q} {r : Q} (h : r ∈ t.visited) (q : Q) (s : S) :
    t.discover q s r = .ok t := by
  obtain ⟨visited, found, taken, parent⟩ := t
  obtain ⟨u, hins, hu⟩ := StateSet.insert_eq_ok visited r
  -- adding a known state gives the same set back
  have hsame : u = visited := by
    refine StateSet.ext fun p => ?_
    rw [hu]
    exact ⟨fun hp => hp.elim (fun heq => heq ▸ h) id, Or.inr⟩
  have hfresh : decide (r ∉ visited) = false := decide_eq_false (not_not_intro h)
  rw [hsame, hfresh] at hins
  simp only [discover]
  rw [hins]
  rfl

/-- A new state is marked, queued, and given its parent. -/
theorem discover_new {t : Search S Q} {r : Q} (h : r ∉ t.visited)
    (hsize : t.parent.size = Indexed.count Q) (q : Q) (s : S) :
    ∃ visited, t.discover q s r = .ok
        ⟨visited, t.found.push r, t.taken, t.parent.setIfInBounds (number r) (some (q, s))⟩ ∧
      ∀ p, p ∈ visited ↔ p = r ∨ p ∈ t.visited := by
  obtain ⟨visited, found, taken, parent⟩ := t
  obtain ⟨u, hins, hu⟩ := StateSet.insert_eq_ok visited r
  have hfresh : decide (r ∉ visited) = true := decide_eq_true h
  have hlt : number r < parent.size := by
    rw [hsize]
    exact number_lt r
  refine ⟨u, ?_, hu⟩
  rw [hfresh] at hins
  simp only [discover]
  rw [hins, ok_bind]
  simp only [index_eq, ok_bind, setParent, dif_pos hlt, Array.setIfInBounds]
  rfl

end Discover

/-! ## The book and the progress of a search -/

variable [Indexed S]

/-- The book of a search is right and in order. -/
structure Records (a : Automaton S Q) (t : Search S Q) (book : List (Q × List S)) : Prop where
  found_eq : t.found.toList = book.map Prod.fst
  mem_visited : ∀ q, q ∈ t.visited ↔ q ∈ book.map Prod.fst
  nodup : (book.map Prod.fst).Nodup
  sorted : (book.map Prod.snd).Pairwise Shortlex
  run_eq : ∀ q w, (q, w) ∈ book → a.run a.start w = .ok q
  head : book[0]? = some (a.start, [])
  size_parent : t.parent.size = Indexed.count Q
  parent_start : t.parent[number a.start]? = some none
  parent_next : ∀ j q w, book[j + 1]? = some (q, w) → ∃ i p u s, i ≤ j ∧ i < t.taken ∧
    book[i]? = some (p, u) ∧ t.parent[number q]? = some (some (p, s)) ∧ w = u ++ [s]

/-- Every successor of the state is in the book, under a word no later than the way through it. -/
def Covers (a : Automaton S Q) (book : List (Q × List S)) (p : Q) (u : List S) (s : S) : Prop :=
  ∃ r w, a.step p s = .ok r ∧ (r, w) ∈ book ∧ ShortlexLe w (u ++ [s])

/-- The first `k` states of the book were passed by and expanded. -/
structure Progress (a : Automaton S Q) (goal : Q → Checked Bool) (book : List (Q × List S))
    (k : Nat) : Prop where
  le_length : k ≤ book.length
  passed : ∀ i p u, i < k → book[i]? = some (p, u) → goal p = .ok false
  expanded : ∀ i p u, i < k → book[i]? = some (p, u) → ∀ s, Covers a book p u s

/-- Before the first state is expanded there is nothing to say. -/
theorem Progress.zero (a : Automaton S Q) (goal : Q → Checked Bool) (book : List (Q × List S)) :
    Progress a goal book 0 :=
  ⟨Nat.zero_le _, fun i _ _ hi => absurd hi (Nat.not_lt_zero i),
    fun i _ _ hi => absurd hi (Nat.not_lt_zero i)⟩

/-- Why a search that has expanded `k` states of the book ended. -/
inductive Verdict (a : Automaton S Q) (goal : Q → Checked Bool) (book : List (Q × List S))
    (k : Nat) : Ending Q → Prop where
  | exhausted : book.length ≤ k → Verdict a goal book k .exhausted
  | reached (q : Q) (w : List S) : book[k]? = some (q, w) → goal q = .ok true →
    Verdict a goal book k (.reached q)
  | failed (q : Q) (w : List S) (s : S) (fault : Fault) : book[k]? = some (q, w) →
    goal q = .ok false → a.step q s = .error fault → Verdict a goal book k (.failed fault)

section Book

variable {a : Automaton S Q} {t : Search S Q} {book : List (Q × List S)}

/-- Of two entries of the book the one that stands first has the earlier word. -/
theorem Records.word_lt (h : Records a t book) {i j : Nat} {p q : Q} {u w : List S}
    (hij : i < j) (hi : book[i]? = some (p, u)) (hj : book[j]? = some (q, w)) :
    Shortlex u w := by
  obtain ⟨hilt, hi⟩ := List.getElem?_eq_some_iff.mp hi
  obtain ⟨hjlt, hj⟩ := List.getElem?_eq_some_iff.mp hj
  have hpair := List.pairwise_iff_getElem.mp h.sorted i j
    (by rwa [List.length_map]) (by rwa [List.length_map]) hij
  rwa [List.getElem_map, List.getElem_map, hi, hj] at hpair

theorem Records.found_getElem? (h : Records a t book) (i : Nat) :
    t.found[i]? = book[i]?.map Prod.fst := by
  rw [← Array.getElem?_toList, h.found_eq, List.getElem?_map]

/-- There are no more entries in the book than there are states. -/
theorem Records.length_le [LawfulIndexed Q] (h : Records a t book) :
    book.length ≤ Indexed.count Q := by
  have hsub : book.map Prod.fst ⊆ values Q := fun q _ => mem_values q
  have hle := h.nodup.length_le_of_subset hsub
  rwa [List.length_map, length_values] at hle

/-- When a state is taken up, all words of the book come before its continuations. -/
theorem Records.word_lt_concat (h : Records a t book) {q : Q} {w : List S}
    (hq : book[t.taken]? = some (q, w)) (s : S) :
    ∀ p u, (p, u) ∈ book → Shortlex u (w ++ [s]) := by
  intro p u hp
  obtain ⟨j, hj⟩ := List.mem_iff_getElem?.mp hp
  cases j with
  | zero =>
    rw [h.head] at hj
    cases hj
    exact Shortlex.nil_concat w s
  | succ j =>
    -- the word continues that of a state taken up earlier
    obtain ⟨i, _, v, x, _, hi, hget, _, rfl⟩ := h.parent_next j p u hj
    exact (h.word_lt hi hget hq).concat x s

theorem Covers.mono {p : Q} {u : List S} {s : S} {book' : List (Q × List S)}
    (h : Covers a book p u s) (hsub : book <+: book') : Covers a book' p u s := by
  obtain ⟨r, w, hstep, hmem, hle⟩ := h
  exact ⟨r, w, hstep, hsub.subset hmem, hle⟩

theorem Progress.mono {goal : Q → Checked Bool} {k : Nat} {book' : List (Q × List S)}
    (h : Progress a goal book k) (hgrows : book <+: book') : Progress a goal book' k := by
  have hback : ∀ {i : Nat} {d : Q × List S}, i < k → book'[i]? = some d → book[i]? = some d := by
    intro i d hi hd
    obtain ⟨rest, rfl⟩ := hgrows
    rwa [List.getElem?_append_left (Nat.lt_of_lt_of_le hi h.le_length)] at hd
  exact ⟨Nat.le_trans h.le_length hgrows.length_le,
    fun i p u hi hp => h.passed i p u hi (hback hi hp),
    fun i p u hi hp s => (h.expanded i p u hi (hback hi hp) s).mono hgrows⟩

theorem Progress.succ {goal : Q → Checked Bool} {k : Nat} {p : Q} {u : List S}
    (h : Progress a goal book k) (hp : book[k]? = some (p, u)) (hgoal : goal p = .ok false)
    (hcovers : ∀ s, Covers a book p u s) : Progress a goal book (k + 1) := by
  refine ⟨(List.getElem?_eq_some_iff.mp hp).1, fun i q w hi hq => ?_, fun i q w hi hq => ?_⟩
  · rcases Nat.lt_succ_iff_lt_or_eq.mp hi with hi | rfl
    · exact h.passed i q w hi hq
    · rw [hp] at hq
      cases hq
      exact hgoal
  · rcases Nat.lt_succ_iff_lt_or_eq.mp hi with hi | rfl
    · exact h.expanded i q w hi hq
    · rw [hp] at hq
      cases hq
      exact hcovers

end Book

section Expand

variable [LawfulIndexed Q] {a : Automaton S Q} {t : Search S Q} {book : List (Q × List S)}

omit [Indexed S] in
/-- Entering the parent of a new state leaves those of the states in the book untouched. -/
theorem parent_push {r : Q} (hfresh : r ∉ book.map Prod.fst) {q : Q} {w : List S}
    (hq : (q, w) ∈ book) (parent : Array (Option (Q × S))) (edge : Option (Q × S)) :
    (parent.setIfInBounds (number r) edge)[number q]? = parent[number q]? := by
  refine Array.getElem?_setIfInBounds_ne fun heq => hfresh ?_
  rw [number_inj.mp heq]
  exact List.mem_map_of_mem hq

theorem Records.parent_next_push (h : Records a t book) {k : Nat} {p r : Q} {u : List S} {s : S}
    (hk : k < t.taken) (hp : book[k]? = some (p, u)) (hfresh : r ∉ book.map Prod.fst) :
    ∀ j q w, (book ++ [(r, u ++ [s])])[j + 1]? = some (q, w) → ∃ i p' u' s', i ≤ j ∧ i < t.taken ∧
      (book ++ [(r, u ++ [s])])[i]? = some (p', u') ∧
      (t.parent.setIfInBounds (number r) (some (p, s)))[number q]? = some (some (p', s')) ∧
      w = u' ++ [s'] := by
  intro j q w hj
  have hold : ∀ {i : Nat} {d : Q × List S}, book[i]? = some d →
      (book ++ [(r, u ++ [s])])[i]? = some d :=
    getElem?_mono (List.prefix_append _ _)
  -- an older entry keeps its parent, and the parent of the new one is `p`
  by_cases hlt : j + 1 < book.length
  · rw [List.getElem?_append_left hlt] at hj
    obtain ⟨i, p', u', s', hij, hi, hget, hparent, hw⟩ := h.parent_next j q w hj
    refine ⟨i, p', u', s', hij, hi, hold hget, ?_, hw⟩
    rw [parent_push hfresh (List.mem_of_getElem? hj)]
    exact hparent
  · rw [List.getElem?_append_right (Nat.le_of_not_lt hlt), List.getElem?_singleton] at hj
    split at hj
    next hlast =>
      cases hj
      have hklt : k < book.length := (List.getElem?_eq_some_iff.mp hp).1
      have hsize : number r < t.parent.size := by
        rw [h.size_parent]
        exact number_lt r
      refine ⟨k, p, u, s, by omega, hk, hold hp, ?_, rfl⟩
      exact Array.getElem?_setIfInBounds_self_of_lt hsize
    next => cases hj

/-- A new state is entered in the book behind all others, under a word that comes after theirs. -/
theorem Records.push (h : Records a t book) {k : Nat} {p r : Q} {u : List S} {s : S}
    (hk : k < t.taken) (hp : book[k]? = some (p, u)) (hstep : a.step p s = .ok r)
    (hnew : r ∉ t.visited) (hlater : ∀ q w, (q, w) ∈ book → Shortlex w (u ++ [s]))
    {visited : StateSet Q} (hvisited : ∀ q, q ∈ visited ↔ q = r ∨ q ∈ t.visited) :
    Records a
      ⟨visited, t.found.push r, t.taken, t.parent.setIfInBounds (number r) (some (p, s))⟩
      (book ++ [(r, u ++ [s])]) := by
  have hfresh : r ∉ book.map Prod.fst := fun hr => hnew ((h.mem_visited r).mpr hr)
  have hpmem : (p, u) ∈ book := List.mem_of_getElem? hp
  refine ⟨?_, ?_, ?_, ?_, ?_, getElem?_mono (List.prefix_append _ _) h.head, ?_, ?_,
    h.parent_next_push hk hp hfresh⟩
  · -- the queue grows with the book,
    rw [Array.toList_push, h.found_eq, List.map_append]
    rfl
  · intro q
    rw [hvisited, h.mem_visited, List.map_append, List.mem_append, List.map_cons, List.map_nil,
      List.mem_singleton]
    exact Or.comm
  · -- no state is in the book twice,
    rw [List.map_append, List.nodup_append]
    refine ⟨h.nodup, List.nodup_cons.mpr ⟨List.not_mem_nil, List.nodup_nil⟩, ?_⟩
    intro q hq x hx heq
    obtain rfl : x = r := List.mem_singleton.mp hx
    exact hfresh (heq ▸ hq)
  · -- the new word comes behind all others,
    rw [List.map_append, List.pairwise_append]
    refine ⟨h.sorted, List.pairwise_singleton _ _, ?_⟩
    intro w hw x hx
    rw [List.map_cons, List.map_nil, List.mem_singleton] at hx
    obtain ⟨⟨q, _⟩, hq, rfl⟩ := List.mem_map.mp hw
    rw [hx]
    exact hlater q _ hq
  · intro q w hq
    -- and it leads to the new state
    rcases List.mem_append.mp hq with hq | hq
    · exact h.run_eq q w hq
    · cases List.mem_singleton.mp hq
      rw [Automaton.run_concat (h.run_eq p u hpmem), hstep]
  · rw [Array.size_setIfInBounds, h.size_parent]
  · rw [parent_push hfresh (List.mem_of_getElem? h.head)]
    exact h.parent_start

/-- Taking note of a successor covers it. The only word it may add is the one that leads to it. -/
theorem Records.discover (h : Records a t book) {k : Nat} {p r : Q} {u : List S} {s : S}
    (hk : k < t.taken) (hp : book[k]? = some (p, u)) (hstep : a.step p s = .ok r)
    (hlater : ∀ q w, (q, w) ∈ book → Shortlex w (u ++ [s])) :
    ∃ t' book', t.discover p s r = .ok t' ∧ t'.taken = t.taken ∧ book <+: book' ∧
      Records a t' book' ∧ Covers a book' p u s ∧
      ∀ q w, (q, w) ∈ book' → (q, w) ∈ book ∨ w = u ++ [s] := by
  by_cases hr : r ∈ t.visited
  · obtain ⟨⟨_, w⟩, hw, rfl⟩ := List.mem_map.mp ((h.mem_visited r).mp hr)
    exact ⟨t, book, discover_known hr p s, rfl, List.prefix_refl _, h,
      ⟨_, w, hstep, hw, Or.inr (hlater _ w hw)⟩, fun q w hq => Or.inl hq⟩
  · obtain ⟨visited, hdiscover, hvisited⟩ := discover_new hr h.size_parent p s
    refine ⟨_, _, hdiscover, rfl, List.prefix_append _ _,
      h.push hk hp hstep hr hlater hvisited,
      ⟨r, u ++ [s], hstep, List.mem_append_right _ (List.mem_singleton.mpr rfl),
        ShortlexLe.refl _⟩, fun q w hq => ?_⟩
    rcases List.mem_append.mp hq with hq | hq
    · exact Or.inl hq
    · cases List.mem_singleton.mp hq
      exact Or.inr rfl

/-- Expanding a state covers its successors on the given symbols, up to the first that meets a
fault. The symbols have to be in order and to continue no word that the book already holds. -/
theorem Records.expand {k : Nat} {p : Q} {u : List S} : ∀ (rest : List S) {t : Search S Q}
    {book : List (Q × List S)}, Records a t book → k < t.taken → book[k]? = some (p, u) →
    rest.Pairwise (fun s s' => number s < number s') →
    (∀ s ∈ rest, ∀ q w, (q, w) ∈ book → Shortlex w (u ++ [s])) →
    ∃ t' fault? book', t.expand a.step p rest = (t', fault?) ∧ t'.taken = t.taken ∧
      book <+: book' ∧ Records a t' book' ∧
      ((fault? = none ∧ ∀ s ∈ rest, Covers a book' p u s) ∨
        ∃ s fault, fault? = some fault ∧ a.step p s = .error fault) := by
  intro rest
  induction rest with
  | nil =>
    intro t book h _ _ _ _
    exact ⟨t, none, book, rfl, rfl, List.prefix_refl _, h, Or.inl ⟨rfl, by simp⟩⟩
  | cons s rest ih =>
    intro t book h hk hp hsorted hlater
    obtain ⟨hs, hsorted⟩ := List.pairwise_cons.mp hsorted
    cases hstep : a.step p s with
    | error fault =>
      refine ⟨t, some fault, book, ?_, rfl, List.prefix_refl _, h, Or.inr ⟨s, fault, rfl, hstep⟩⟩
      simp only [Search.expand, hstep]
    | ok r =>
      obtain ⟨t₁, book₁, hdiscover, htaken, hgrows, h₁, hcovers, hbook⟩ :=
        h.discover hk hp hstep (hlater s (List.mem_cons_self ..))
      -- a word that was added ends in `s`, which comes before the symbols that are left
      have hlater₁ : ∀ s' ∈ rest, ∀ q w, (q, w) ∈ book₁ → Shortlex w (u ++ [s']) := by
        intro s' hs' q w hq
        rcases hbook q w hq with hold | rfl
        · exact hlater s' (List.mem_cons_of_mem _ hs') q w hold
        · exact Shortlex.concat_of_number_lt u (hs s' hs')
      obtain ⟨t', fault?, book', hexpand, htaken', hgrows', h', hend⟩ :=
        ih h₁ (htaken ▸ hk) (getElem?_mono hgrows hp) hsorted hlater₁
      refine ⟨t', fault?, book', ?_, htaken'.trans htaken, hgrows.trans hgrows', h', ?_⟩
      · simp only [Search.expand, hstep, hdiscover]
        exact hexpand
      · rcases hend with ⟨hnone, hcov⟩ | hfail
        · refine Or.inl ⟨hnone, fun s' hs' => ?_⟩
          rcases List.mem_cons.mp hs' with rfl | hs'
          · exact hcovers.mono hgrows'
          · exact hcov s' hs'
        · exact Or.inr hfail

/-! ## A whole search -/

/-- A search starts with the start state as its only entry. -/
theorem init_spec (a : Automaton S Q) :
    ∃ t : Search S Q, init a.start = .ok t ∧ t.taken = 0 ∧ Records a t [(a.start, [])] := by
  obtain ⟨visited, hins, hvisited⟩ := StateSet.insert_eq_ok (StateSet.empty : StateSet Q) a.start
  refine ⟨⟨visited, #[a.start], 0, Array.replicate (Indexed.count Q) none⟩, ?_, rfl, ?_⟩
  · rw [init, hins]
    rfl
  · refine ⟨rfl, fun q => ?_, ?_, ?_, fun q w hq => ?_, rfl, Array.size_replicate, ?_, ?_⟩
    · rw [hvisited]
      simp
    · exact List.nodup_cons.mpr ⟨List.not_mem_nil, List.nodup_nil⟩
    · exact List.pairwise_singleton _ _
    · cases List.mem_singleton.mp hq
      rfl
    · rw [Array.getElem?_replicate, if_pos (number_lt a.start)]
    · intro j q w hj
      cases hj

variable [LawfulIndexed S]

/-- One state is taken up: it is passed by and expanded, or the search ends with a verdict. -/
theorem advance_spec {goal : Q → Checked Bool} (hgoal : ∀ q, ∃ b, goal q = .ok b)
    (h : Records a t book) (hprogress : Progress a goal book t.taken) :
    ∃ t' ending? book', t.advance a.step goal (values S) = (t', ending?) ∧ Records a t' book' ∧
      ((ending? = none ∧ t'.taken = t.taken + 1 ∧ Progress a goal book' t'.taken) ∨
        ∃ ending, ending? = some ending ∧ t.taken ≤ t'.taken ∧ Progress a goal book' t.taken ∧
          Verdict a goal book' t.taken ending) := by
  have hfound := h.found_getElem? t.taken
  cases hp : book[t.taken]? with
  | none =>
    rw [hp, Option.map_none] at hfound
    refine ⟨t, some .exhausted, book, by simp only [advance, hfound], h, Or.inr ?_⟩
    exact ⟨_, rfl, Nat.le_refl _, hprogress, .exhausted (List.getElem?_eq_none_iff.mp hp)⟩
  | some d =>
    obtain ⟨p, u⟩ := d
    rw [hp, Option.map_some] at hfound
    -- taking the state up changes the count only
    have h₁ : Records a { t with taken := t.taken + 1 } book :=
      { h with
        parent_next := fun j q w hj => by
          obtain ⟨i, p, u, s, hij, hi, hrest⟩ := h.parent_next j q w hj
          exact ⟨i, p, u, s, hij, Nat.lt_succ_of_lt hi, hrest⟩ }
    obtain ⟨b, hb⟩ := hgoal p
    cases b with
    | true =>
      refine ⟨_, some (.reached p), book, by simp only [advance, hfound, hb], h₁, Or.inr ?_⟩
      exact ⟨_, rfl, Nat.le_succ _, hprogress, .reached p u hp hb⟩
    | false =>
      obtain ⟨t', fault?, book', hexpand, htaken, hgrows, h', hend⟩ :=
        h₁.expand (values S) (Nat.lt_succ_self _) hp pairwise_values
          fun s _ => h.word_lt_concat hp s
      have hprogress' := hprogress.mono hgrows
      have hp' := getElem?_mono hgrows hp
      rcases hend with ⟨rfl, hcovers⟩ | ⟨s, fault, rfl, hfail⟩
      · refine ⟨t', none, book', by simp only [advance, hfound, hb]; rw [hexpand], h', Or.inl ?_⟩
        refine ⟨rfl, htaken, ?_⟩
        rw [htaken]
        exact hprogress'.succ hp' hb fun s => hcovers s (mem_values s)
      · refine ⟨t', some (.failed fault), book', by simp only [advance, hfound, hb]; rw [hexpand],
          h', Or.inr ?_⟩
        refine ⟨_, rfl, ?_, hprogress', .failed p u s fault hp' hb hfail⟩
        rw [htaken]
        exact Nat.le_succ _

/-- As many advances as there are states are enough: then no discovered state is left over. The
states that were expanded were taken up, and with them perhaps the one at which the search ended. -/
theorem explore_spec {goal : Q → Checked Bool} (hgoal : ∀ q, ∃ b, goal q = .ok b) :
    ∀ (n : Nat) {t : Search S Q} {book : List (Q × List S)}, Records a t book →
      Progress a goal book t.taken → t.taken + n = Indexed.count Q →
      ∃ t' ending book' k, explore a.step goal (values S) n t = (t', ending) ∧ k ≤ t'.taken ∧
        Records a t' book' ∧ Progress a goal book' k ∧ Verdict a goal book' k ending := by
  intro n
  induction n with
  | zero =>
    intro t book h hprogress hn
    refine ⟨t, .exhausted, book, t.taken, rfl, Nat.le_refl _, h, hprogress, .exhausted ?_⟩
    -- as many states were taken up as there are, so none is left in the book
    have hle := h.length_le
    omega
  | succ n ih =>
    intro t book h hprogress hn
    obtain ⟨t₁, ending?, book₁, hadvance, h₁, hend⟩ := advance_spec hgoal h hprogress
    rcases hend with ⟨rfl, htaken, hprogress₁⟩ | ⟨ending, rfl, htaken, hprogress₁, hverdict⟩
    · obtain ⟨t', ending, book', k, hexplore, hrest⟩ := ih h₁ hprogress₁ (by omega)
      refine ⟨t', ending, book', k, ?_, hrest⟩
      rw [explore, hadvance]
      exact hexplore
    · refine ⟨t₁, ending, book₁, t.taken, ?_, htaken, h₁, hprogress₁, hverdict⟩
      rw [explore, hadvance]

/-- A search ends with a verdict and with a book that is right. -/
theorem run_spec (a : Automaton S Q) {goal : Q → Checked Bool} (hgoal : ∀ q, ∃ b, goal q = .ok b) :
    ∃ t ending book k, Search.run a goal = .ok (t, ending) ∧ k ≤ t.taken ∧ Records a t book ∧
      Progress a goal book k ∧ Verdict a goal book k ending := by
  obtain ⟨t₀, hinit, htaken, h₀⟩ := init_spec a
  have hprogress₀ : Progress a goal [(a.start, [])] t₀.taken := by
    rw [htaken]
    exact Progress.zero a goal _
  obtain ⟨t, ending, book, k, hexplore, hrest⟩ :=
    explore_spec hgoal (Indexed.count Q) h₀ hprogress₀ (by rw [htaken, Nat.zero_add])
  refine ⟨t, ending, book, k, ?_, hrest⟩
  rw [Search.run, all_eq, hinit]
  exact congrArg Except.ok hexplore

end Expand

/-! ## What the book says about runs -/

section Runs

variable {a : Automaton S Q} {t : Search S Q} {book : List (Q × List S)} {goal : Q → Checked Bool}
  {k : Nat}

/-- The state was expanded, and has a word no later than `u`; or the first state that was not
expanded is the state itself and has such a word, or its word comes before `u`. -/
def ExpandedOrLater (book : List (Q × List S)) (k : Nat) (q : Q) (u : List S) : Prop :=
  (∃ i w, i < k ∧ book[i]? = some (q, w) ∧ ShortlexLe w u) ∨
    ∃ p w, book[k]? = some (p, w) ∧ (p = q ∧ ShortlexLe w u ∨ Shortlex w u)

theorem Records.expandedOrLater (h : Records a t book) (k : Nat) {q : Q} {w u : List S}
    (hq : (q, w) ∈ book) (hle : ShortlexLe w u) : ExpandedOrLater book k q u := by
  obtain ⟨i, hi⟩ := List.mem_iff_getElem?.mp hq
  rcases Nat.lt_trichotomy i k with hik | rfl | hki
  · exact Or.inl ⟨i, w, hik, hi, hle⟩
  · exact Or.inr ⟨q, w, hi, Or.inl ⟨rfl, hle⟩⟩
  · have hlen : k < book.length := Nat.lt_trans hki (List.getElem?_eq_some_iff.mp hi).1
    have hk : book[k]? = some (book[k].1, book[k].2) := List.getElem?_eq_getElem hlen
    exact Or.inr ⟨_, _, hk, Or.inr ((h.word_lt hki hk hi).trans_le hle)⟩

/-- What a search has seen of the state that a run leads to. -/
theorem Progress.expandedOrLater (hprogress : Progress a goal book k) (h : Records a t book)
    {u : List S} {q : Q} (hu : a.run a.start u = .ok q) : ExpandedOrLater book k q u := by
  -- on the reversed word, so that the last symbol is taken off
  suffices hrev : ∀ (v : List S) {q : Q}, a.run a.start v.reverse = .ok q →
      ExpandedOrLater book k q v.reverse by
    rw [← u.reverse_reverse] at hu ⊢
    exact hrev _ hu
  intro v
  induction v with
  | nil =>
    intro q hq
    cases hq
    exact h.expandedOrLater k (List.mem_of_getElem? h.head) (ShortlexLe.refl _)
  | cons s v ih =>
    intro q hq
    rw [List.reverse_cons] at hq ⊢
    obtain ⟨p, hp, hstep⟩ := Automaton.run_concat_eq_ok.mp hq
    rcases ih hp with ⟨i, u, hik, hi, hle⟩ | ⟨r, w, hw, hcases⟩
    · obtain ⟨r, w, hr, hw, hwle⟩ := hprogress.expanded i p u hik hi s
      obtain rfl : q = r := Except.ok.inj (hstep.symm.trans hr)
      exact h.expandedOrLater k hw (hwle.trans (hle.concat s))
    · have hle : ShortlexLe w v.reverse := hcases.elim And.right Or.inr
      exact Or.inr ⟨r, w, hw, Or.inr (hle.trans_lt (Shortlex.self_concat _ s))⟩

/-- When every state of the book is expanded, every run leads to one of them, along a word that is
no earlier than the one in the book. -/
theorem Progress.exists_entry (hprogress : Progress a goal book k) (h : Records a t book)
    (hlen : book.length ≤ k) {u : List S} {q : Q} (hu : a.run a.start u = .ok q) :
    ∃ i w, i < k ∧ book[i]? = some (q, w) ∧ ShortlexLe w u := by
  rcases hprogress.expandedOrLater h hu with hentry | ⟨p, w, hp, _⟩
  · exact hentry
  · rw [List.getElem?_eq_none hlen] at hp
    cases hp

end Runs

end Search

end Automata
