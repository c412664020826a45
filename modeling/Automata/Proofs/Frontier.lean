import Automata.Proofs.Visits

/-!
# The frontier of a search

The search for an accepted word keeps its discovered states in a queue and writes down for each of
them the state and the symbol it was discovered from. It has two loops. The outer one takes states
from the queue until it meets a terminal one, and the inner one then goes back along the parents to
the start state. Neither has a counter, so why do they end, and why at a shortest word?

What both rest on is the book behind the search (`Discovery`): the word beside a state is the first
of all words that lead to it, also while the search is still under way (`Records.isFirstTo`). A
state of the book has its parent among the states that were taken up before, beside its own word
without the last symbol. So going back the words get shorter, and a state that waits in the queue
has a word that is at most one symbol longer than that of any other, for it was discovered from a
state that comes before them all.

`After` says to which point the outer loop comes in which iteration, without any bound on their
number, and `Traced` what the inner loop collects, without any bound on its steps.

> `search_loops_end`: in every iteration the search is in order (`InOrder`), and both loops end, the
> outer one after no more iterations than there are states.
-/

namespace Automata

namespace Search

variable {S Q : Type} [Indexed S] [Indexed Q]

/-- The states that wait to be taken up. -/
def queue (t : Search S Q) : List Q := t.found.toList.drop t.taken

/-- The search for a state that satisfies `goal` comes to `t` behind its first `n` iterations. -/
inductive After (a : Automaton S Q) (goal : Q → Checked Bool) : Nat → Search S Q → Prop where
  | start {t : Search S Q} : init a.start = .ok t → After a goal 0 t
  | next {n : Nat} {t t' : Search S Q} : After a goal n t →
    t.advance a.step goal (values S) = (t', none) → After a goal (n + 1) t'

/-- Following the parents from `q` leads to `root`, where they end. The symbols that are collected
on the way form `word` when they are put in front of one another. -/
inductive Traced (parent : Array (Option (Q × S))) (root : Q) : Q → List S → Prop where
  | ends : parent[number root]? = some none → Traced parent root root []
  | back {q p : Q} {s : S} {word : List S} : parent[number q]? = some (some (p, s)) →
    Traced parent root p word → Traced parent root q (word ++ [s])

/-- The parents of the discovered states lead back to the start state along shortest words, and the
queue is in the order of these words. -/
structure InOrder (a : Automaton S Q) (t : Search S Q) : Prop where
  /-- No state is put in the queue twice. -/
  nodup : t.found.toList.Nodup
  /-- The discovered states are those that were put in the queue. -/
  mem_found_iff : ∀ q, q ∈ t.found.toList ↔ q ∈ t.visited
  /-- Of the discovered states only the start state has no parent. -/
  no_parent_iff : ∀ q, q ∈ t.visited → (t.parent[number q]? = some none ↔ q = a.start)
  /-- The parent of a discovered state is a discovered state that is nearer to the start state, so
  following the parents never comes to a state twice. -/
  parent_nearer : ∀ q p s, q ∈ t.visited → t.parent[number q]? = some (some (p, s)) →
    p ∈ t.visited ∧ a.step p s = .ok q ∧ a.distance q = a.distance p + 1
  /-- Following the parents of a discovered state ends at the start state, and gives a word that
  leads from there to the state and is as long as the state is distant. -/
  exists_traced : ∀ q, q ∈ t.visited → ∃ w, Traced t.parent a.start q w ∧ t.wordTo q = .ok w ∧
    a.run a.start w = .ok q ∧ w.length = a.distance q
  /-- States wait in the order of their words, and no word is longer than another by more than one
  symbol. -/
  queue_sorted : t.queue.Pairwise fun p q => ∃ u w, Traced t.parent a.start p u ∧
    Traced t.parent a.start q w ∧ Shortlex u w ∧ w.length ≤ u.length + 1

/-! ## What the book says about the parents -/

section Book

variable {a : Automaton S Q} {t : Search S Q} {book : List (Q × List S)} {goal : Q → Checked Bool}

theorem Records.mem_visited_iff (h : Records a t book) {q : Q} :
    q ∈ t.visited ↔ ∃ (j : Nat) (w : List S), book[j]? = some (q, w) := by
  rw [h.mem_visited, List.mem_map]
  constructor
  · intro hq
    obtain ⟨⟨_, w⟩, hw, rfl⟩ := hq
    obtain ⟨j, hj⟩ := List.mem_iff_getElem?.mp hw
    exact ⟨j, w, hj⟩
  · intro hq
    obtain ⟨j, w, hj⟩ := hq
    exact ⟨_, List.mem_of_getElem? hj, rfl⟩

/-- Following the parents from a state of the book ends at the start state, and gives its word. -/
theorem Records.traced (h : Records a t book) : ∀ (j : Nat) {q : Q} {w : List S},
    book[j]? = some (q, w) → Traced t.parent a.start q w := by
  intro j
  induction j using Nat.strongRecOn with
  | ind j ih =>
    intro q w hq
    cases j with
    | zero =>
      rw [h.head] at hq
      cases hq
      exact .ends h.parent_start
    | succ j =>
      -- the parent stands earlier in the book
      obtain ⟨i, p, u, s, hij, _, hp, hparent, rfl⟩ := h.parent_next j q w hq
      exact .back hparent (ih i (Nat.lt_succ_of_le hij) hp)

/-- Only the start state was not discovered from another state. -/
theorem Records.no_parent_iff (h : Records a t book) {q : Q} (hq : q ∈ t.visited) :
    t.parent[number q]? = some none ↔ q = a.start := by
  constructor
  · intro hnone
    obtain ⟨j, w, hj⟩ := h.mem_visited_iff.mp hq
    cases j with
    | zero =>
      rw [h.head] at hj
      cases hj
      rfl
    | succ j =>
      obtain ⟨_, _, _, _, _, _, _, hparent, _⟩ := h.parent_next j q w hj
      rw [hparent] at hnone
      cases hnone
  · rintro rfl
    exact h.parent_start

/-- A state with a parent has the parent's word with one more symbol. -/
theorem Records.exists_parent (h : Records a t book) {q p : Q} {s : S} (hq : q ∈ t.visited)
    (hparent : t.parent[number q]? = some (some (p, s))) :
    ∃ u, (p, u) ∈ book ∧ (q, u ++ [s]) ∈ book := by
  obtain ⟨j, w, hj⟩ := h.mem_visited_iff.mp hq
  cases j with
  | zero =>
    rw [h.head] at hj
    cases hj
    rw [h.parent_start] at hparent
    cases hparent
  | succ j =>
    obtain ⟨i, p', u, s', _, _, hp, hparent', rfl⟩ := h.parent_next j q w hj
    cases hparent.symm.trans hparent'
    exact ⟨u, List.mem_of_getElem? hp, List.mem_of_getElem? hj⟩

/-- A state that waits behind another was discovered from one that comes before both, so its word is
at most one symbol longer. -/
theorem Records.length_le_succ (h : Records a t book) {i j : Nat} {p q : Q} {u w : List S}
    (hi : book[i]? = some (p, u)) (hj : book[j]? = some (q, w)) (htaken : t.taken ≤ i)
    (hij : i < j) : w.length ≤ u.length + 1 := by
  cases j with
  | zero => exact absurd hij (Nat.not_lt_zero i)
  | succ j =>
    obtain ⟨k, r, v, s, _, hk, hr, _, rfl⟩ := h.parent_next j q w hj
    have hlt : Shortlex v u := h.word_lt (Nat.lt_of_lt_of_le hk htaken) hr hi
    rw [List.length_append]
    exact Nat.succ_le_succ hlt.length_le

theorem Records.queue_sorted (h : Records a t book) :
    t.queue.Pairwise fun p q => ∃ u w, Traced t.parent a.start p u ∧
      Traced t.parent a.start q w ∧ Shortlex u w ∧ w.length ≤ u.length + 1 := by
  rw [queue, h.found_eq, ← List.map_drop, List.pairwise_map, List.pairwise_iff_getElem]
  intro i j hi hj hij
  have hget : ∀ {k : Nat} (hk : k < (book.drop t.taken).length),
      book[t.taken + k]? = some ((book.drop t.taken)[k].1, (book.drop t.taken)[k].2) := by
    intro k hk
    rw [← List.getElem?_drop, List.getElem?_eq_getElem hk]
  have hlt : t.taken + i < t.taken + j := Nat.add_lt_add_left hij _
  exact ⟨_, _, h.traced _ (hget hi), h.traced _ (hget hj), h.word_lt hlt (hget hi) (hget hj),
    h.length_le_succ (hget hi) (hget hj) (Nat.le_add_right _ _) hlt⟩

theorem Records.inOrder [LawfulIndexed Q] (h : Records a t book)
    (hprogress : Progress a goal book t.taken) : InOrder a t := by
  have hfirst : ∀ {q : Q} {w : List S}, (q, w) ∈ book → a.IsFirstTo q w :=
    h.isFirstTo hprogress fun p u s hp => h.word_lt_concat hp s
  refine ⟨?_, fun q => ?_, fun q hq => h.no_parent_iff hq, fun q p s hq hparent => ?_,
    fun q hq => ?_, h.queue_sorted⟩
  · rw [h.found_eq]
    exact h.nodup
  · rw [h.found_eq, h.mem_visited]
  · obtain ⟨u, hp, hq⟩ := h.exists_parent hq hparent
    have hstep := h.run_eq q _ hq
    rw [Automaton.run_concat (h.run_eq p u hp)] at hstep
    refine ⟨(h.mem_visited p).mpr (List.mem_map_of_mem hp), hstep, ?_⟩
    rw [(hfirst hp).distance_eq, (hfirst hq).distance_eq, List.length_append]
    rfl
  · obtain ⟨j, w, hj⟩ := h.mem_visited_iff.mp hq
    have hmem : (q, w) ∈ book := List.mem_of_getElem? hj
    exact ⟨w, h.traced j hj, h.wordTo_eq_ok hj, h.run_eq q w hmem, (hfirst hmem).distance_eq.symm⟩

end Book

/-! ## The loops -/

omit [Indexed S] in
/-- How an iteration ends the loop, if no fault is met: nothing waits, or the state that waits first
is one that the search is looking for. -/
theorem advance_eq_some {step : Q → S → Checked Q} {goal : Q → Checked Bool} {symbols : List S}
    {t t' : Search S Q} {ending : Ending Q}
    (h : t.advance step goal symbols = (t', some ending)) :
    (ending = .exhausted ∧ t' = t ∧ t.queue = []) ∨
      (∃ q, ending = .reached q ∧ t' = { t with taken := t.taken + 1 } ∧
        t.queue.head? = some q ∧ goal q = .ok true) ∨
      ∃ fault, ending = .failed fault := by
  unfold advance at h
  split at h
  next hnone =>
    cases h
    -- there is no state to take up
    refine Or.inl ⟨rfl, rfl, List.drop_eq_nil_of_le ?_⟩
    exact Array.getElem?_eq_none_iff.mp hnone
  next q hq =>
    split at h
    next fault _ =>
      cases h
      exact Or.inr (Or.inr ⟨fault, rfl⟩)
    next hgoal =>
      cases h
      refine Or.inr (Or.inl ⟨q, rfl, rfl, ?_, hgoal⟩)
      rw [queue, List.head?_drop, Array.getElem?_toList]
      exact hq
    next =>
      -- the state is expanded, which ends the search only by a fault
      dsimp only at h
      split at h
      next => cases h
      next fault _ =>
        cases h
        exact Or.inr (Or.inr ⟨fault, rfl⟩)

section Loops

variable [LawfulIndexed S] [LawfulIndexed Q] {a : Automaton S Q} {goal : Q → Checked Bool}
  {t : Search S Q} {n : Nat}

/-- In every iteration as many states have been taken up, passed by and expanded as there were
iterations before. -/
theorem After.exists_book (hgoal : ∀ q, ∃ b, goal q = .ok b) (h : After a goal n t) :
    t.taken = n ∧ ∃ book, Records a t book ∧ Progress a goal book t.taken := by
  induction h with
  | start hinit =>
    obtain ⟨t₀, hinit₀, htaken, h₀⟩ := init_spec a
    cases hinit₀.symm.trans hinit
    exact ⟨htaken, _, h₀, htaken ▸ Progress.zero a goal _⟩
  | next _ hadvance ih =>
    obtain ⟨htaken, book, hrecords, hprogress⟩ := ih
    obtain ⟨t', ending?, book', hadvance', h', hend⟩ := advance_spec hgoal hrecords hprogress
    cases hadvance'.symm.trans hadvance
    rcases hend with ⟨_, htaken', hprogress'⟩ | ⟨ending, hnone, _⟩
    · exact ⟨htaken'.trans (congrArg _ htaken), book', h', hprogress'⟩
    · cases hnone

/-- The loop comes to an end, and what it ends with is what the bounded search gives: the bound does
not cut it short. -/
theorem After.exists_last (hgoal : ∀ q, ∃ b, goal q = .ok b) : ∀ (k : Nat) {n : Nat}
    {t : Search S Q}, After a goal n t → n + k = Indexed.count Q →
    ∃ m t' t'' ending, After a goal m t' ∧
      t'.advance a.step goal (values S) = (t'', some ending) ∧
      explore a.step goal (values S) k t = (t'', ending) := by
  intro k
  induction k with
  | zero =>
    intro n t h hn
    obtain ⟨htaken, book, hrecords, _⟩ := h.exists_book hgoal
    -- as many states were taken up as there are, so none is left
    have hlen : book.length ≤ t.taken := by
      have hle := hrecords.length_le
      omega
    have hnone : t.found[t.taken]? = none := by
      rw [hrecords.found_getElem?, List.getElem?_eq_none hlen]
      rfl
    exact ⟨n, t, t, .exhausted, h, by simp only [advance, hnone], rfl⟩
  | succ k ih =>
    intro n t h hn
    cases hadvance : t.advance a.step goal (values S) with
    | mk t' ending? =>
      cases ending? with
      | none =>
        obtain ⟨m, t₁, t₂, ending, hafter, hlast, hexplore⟩ :=
          ih (h.next hadvance) (by omega)
        refine ⟨m, t₁, t₂, ending, hafter, hlast, ?_⟩
        rw [explore, hadvance]
        exact hexplore
      | some ending =>
        refine ⟨n, t, t', ending, h, hadvance, ?_⟩
        rw [explore, hadvance]

end Loops

end Search

namespace Automaton

variable {S Q : Type} [Indexed S] [Indexed Q] [LawfulIndexed S] [LawfulIndexed Q]

/-- **The loops of the search for a shortest accepted word end.** Let no run fail. In every
iteration of the outer loop the parents lead from each visited state back to the start state, which
alone has none, along a word that leads to the state and is as long as its distance; no state is put
in the queue twice, and the queue is in the shortlex order of these words, whose lengths differ by
one at most. Before each iteration as many states were taken up as there were iterations, and these
are no more than there are states. So the outer loop ends: with an empty queue, and then there is no
accepted word, or with a state `q` from which the inner loop goes back to the start state, and then
what it collects is the answer. -/
theorem search_loops_end (d : Automaton S Q) (hd : d.Unfailing) :
    (∀ n t, Search.After d d.isTerminal n t →
      t.taken = n ∧ n ≤ Indexed.count Q ∧ Search.InOrder d t) ∧
    ∃ n t, Search.After d d.isTerminal n t ∧
      ((t.queue = [] ∧
          t.advance d.step d.isTerminal (values S) = (t, some .exhausted) ∧
          d.shortestAccepted.outcome = .ok none) ∨
        ∃ q word, t.queue.head? = some q ∧ n < Indexed.count Q ∧
          t.advance d.step d.isTerminal (values S) =
            ({ t with taken := n + 1 }, some (.reached q)) ∧
          Search.Traced t.parent d.start q word ∧
          d.shortestAccepted.outcome = .ok (some word)) := by
  have hgoal : ∀ q, ∃ b, d.isTerminal q = .ok b := fun q => ⟨_, isTerminal_eq d q⟩
  refine ⟨fun n t h => ?_, ?_⟩
  · obtain ⟨htaken, book, hrecords, hprogress⟩ := h.exists_book hgoal
    refine ⟨htaken, ?_, hrecords.inOrder hprogress⟩
    -- an iteration takes up one state, and a state is in the book once
    rw [← htaken]
    exact Nat.le_trans hprogress.le_length hrecords.length_le
  · obtain ⟨t₀, hinit, _, _⟩ := Search.init_spec d
    obtain ⟨n, t, t', ending, h, hlast, hexplore⟩ :=
      (Search.After.start hinit).exists_last hgoal (Indexed.count Q) (Nat.zero_add _)
    have hrun : Search.run d d.isTerminal = .ok (t', ending) := by
      rw [Search.run, all_eq, hinit]
      exact congrArg Except.ok hexplore
    obtain ⟨htaken, book, hrecords, hprogress⟩ := h.exists_book hgoal
    refine ⟨n, t, h, ?_⟩
    rw [shortestAccepted_outcome, hrun, ok_bind]
    rcases Search.advance_eq_some hlast with ⟨rfl, rfl, hqueue⟩ | ⟨q, rfl, rfl, hq, _⟩ | ⟨_, rfl⟩
    · -- the queue has run empty
      exact Or.inl ⟨hqueue, hlast, rfl⟩
    · -- the state that was taken up is one of those that the parents lead back from
      have hget : t.found.toList[t.taken]? = some q := by
        rw [← List.head?_drop]
        exact hq
      have hinorder := hrecords.inOrder hprogress
      have hvisited := (hinorder.mem_found_iff q).mp (List.mem_of_getElem? hget)
      obtain ⟨w, htraced, hword, _, _⟩ := hinorder.exists_traced q hvisited
      have hlt : t.taken < Indexed.count Q := by
        refine Nat.lt_of_lt_of_le (List.getElem?_eq_some_iff.mp hget).1 ?_
        rw [hrecords.found_eq, List.length_map]
        exact hrecords.length_le
      refine Or.inr ⟨q, w, hq, htaken ▸ hlt, htaken ▸ hlast, htraced, ?_⟩
      exact congrArg (· >>= fun word => .ok (some word)) hword
    · -- a fault would lie on the way of a run
      obtain ⟨t₁, ending, hrun₁, hanswer⟩ := Search.run_answer d d.isTerminal hgoal
      cases hrun.symm.trans hrun₁
      cases hanswer with
      | failed r w s fault hr hfail _ =>
        obtain ⟨r', hr'⟩ := hd.step_ok hr s
        rw [hfail] at hr'
        cases hr'

/-- The state to which `[1, 2]` leads is taken up after fewer iterations than there are states, and
the parents lead back from it along this word. -/
theorem search_loops_end_sumsToThree :
    sumsToThree.Unfailing ∧ ∃ n t q, n < 7 ∧
      Search.After sumsToThree sumsToThree.isTerminal n t ∧ Search.InOrder sumsToThree t ∧
      t.queue.head? = some q ∧ Search.Traced t.parent sumsToThree.start q [1, 2] := by
  obtain ⟨hinorder, n, t, hafter, hend⟩ := search_loops_end sumsToThree sumsToThree_unfailing
  have hanswer : sumsToThree.shortestAccepted.outcome = .ok (some [1, 2]) := rfl
  refine ⟨sumsToThree_unfailing, n, t, ?_⟩
  rcases hend with ⟨_, _, hnone⟩ | ⟨q, word, hq, hn, _, htraced, hword⟩
  · rw [hanswer] at hnone
    cases hnone
  · obtain rfl : [1, 2] = word := Option.some.inj (Except.ok.inj (hanswer.symm.trans hword))
    exact ⟨q, hn, hafter, (hinorder n t hafter).2.2, hq, htraced⟩

end Automaton

end Automata
