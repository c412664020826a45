import Automata.Language.Counting
import Automata.Proofs.Runs

/-!
# What the counting vectors count

A counting vector stands for a book of words: each word with the state it leads to. `Tally` says
that the entry of each state is the number of its words in the book. Adding `n` to an entry enters
`n` words, and spreading a vector enters every word of its book with every symbol appended. So after
as many rounds as a length says the book holds the words of that length, each of them once
(`lengthen_spec`), unless a round meets a fault, and it meets only those that lie on the way of a
word of its book.
-/

namespace Automata.Automaton

variable {S Q : Type} [Indexed Q]

/-- The words of a book that lead to a state. -/
def wordsTo (book : List (Q × List S)) (q : Q) : List (List S) :=
  (book.filter fun d => number d.1 = number q).map Prod.snd

theorem wordsTo_append (book book' : List (Q × List S)) (q : Q) :
    wordsTo (book ++ book') q = wordsTo book q ++ wordsTo book' q := by
  rw [wordsTo, List.filter_append, List.map_append, wordsTo, wordsTo]

theorem wordsTo_enter (words : List (List S)) (r q : Q) :
    wordsTo (words.map fun w => (r, w)) q = if number r = number q then words else [] := by
  rw [wordsTo, List.filter_map, List.map_map]
  split
  next h => simp [Function.comp_def, h]
  next h => simp [Function.comp_def, h]

/-- The words beside a state are those that the book gives it. -/
theorem mem_wordsTo [LawfulIndexed Q] {book : List (Q × List S)} {q : Q} {w : List S} :
    w ∈ wordsTo book q ↔ (q, w) ∈ book := by
  rw [wordsTo, List.mem_map]
  constructor
  · intro h
    obtain ⟨⟨p, u⟩, hp, rfl⟩ := h
    rw [List.mem_filter, decide_eq_true_eq, number_inj] at hp
    obtain ⟨hmem, rfl⟩ := hp
    exact hmem
  · intro h
    exact ⟨(q, w), List.mem_filter.mpr ⟨h, decide_eq_true rfl⟩, rfl⟩

/-! ## One round -/

variable [Indexed S]

/-- The vector holds for each state the number of its words in the book, and the book is right. -/
structure Tally (a : Automaton S Q) (ways : Ways) (book : List (Q × List S)) : Prop where
  size_eq : ways.size = Indexed.count Q
  get_eq : ∀ q, ways[number q]? = some (wordsTo book q).length
  run_eq : ∀ q w, (q, w) ∈ book → a.run a.start w = .ok q

/-- The count of a state is the number of its words. -/
theorem Tally.get_eq_ok {a : Automaton S Q} {ways : Ways} {book : List (Q × List S)}
    (h : Tally a ways book) (q : Q) : ways.get (number q) = .ok (wordsTo book q).length := by
  simp only [Ways.get, h.get_eq]

section Round

variable [LawfulIndexed Q] {a : Automaton S Q}

/-- Adding to the entry of a state enters words that lead there. -/
theorem Tally.add {ways : Ways} {book : List (Q × List S)} (h : Tally a ways book) {r : Q}
    (words : List (List S)) (hwords : ∀ w ∈ words, a.run a.start w = .ok r) :
    ∃ ways', ways.add (number r) words.length = .ok ways' ∧
      Tally a ways' (book ++ words.map fun w => (r, w)) := by
  have hlt : number r < ways.size := by
    rw [h.size_eq]
    exact number_lt r
  have hr : ways[number r] = (wordsTo book r).length := by
    have hget := h.get_eq r
    rw [Array.getElem?_eq_getElem hlt] at hget
    exact Option.some.inj hget
  -- the entry of `r` grows by the number of new words, the others stay
  refine ⟨_, dif_pos hlt, ?_, fun q => ?_, fun q w hq => ?_⟩
  · rw [Array.size_set, h.size_eq]
  · rw [wordsTo_append, wordsTo_enter, List.length_append, Array.getElem?_set]
    split
    next heq => rw [hr, number_inj.mp heq]
    next => rw [h.get_eq, List.length_nil, Nat.add_zero]
  · rcases List.mem_append.mp hq with hq | hq
    · exact h.run_eq q w hq
    · obtain ⟨u, hu, heq⟩ := List.mem_map.mp hq
      cases heq
      exact hwords w hu

/-- Spreading the count of a state enters its words with each symbol appended, or fails at a step
from the state. -/
theorem spreadFrom_spec {q : Q} {words : List (List S)}
    (hwords : ∀ w ∈ words, a.run a.start w = .ok q) : ∀ (symbols : List S) {next : Ways}
    {book : List (Q × List S)}, Tally a next book →
    (∃ next' book', a.spreadFrom q words.length symbols next = .ok next' ∧ Tally a next' book' ∧
      book'.map Prod.snd =
        book.map Prod.snd ++ symbols.flatMap fun s => words.map (· ++ [s])) ∨
      Fails (a.spreadFrom q words.length symbols next) ∧ ∃ s, Fails (a.step q s) := by
  intro symbols
  induction symbols with
  | nil =>
    intro next book h
    exact Or.inl ⟨next, book, rfl, h, by rw [List.flatMap_nil, List.append_nil]⟩
  | cons s symbols ih =>
    intro next book h
    cases hstep : a.step q s with
    | error fault =>
      -- the count ends at the first step that fails
      have hfails : Fails (a.step q s) := ⟨fault, hstep⟩
      refine Or.inr ⟨?_, s, hfails⟩
      rw [spreadFrom, hstep]
      exact fails_error fault
    | ok r =>
      -- the words to `q`, with `s` appended, are entered beside the successor
      have hwords' : ∀ w ∈ words.map (· ++ [s]), a.run a.start w = .ok r := by
        intro w hw
        obtain ⟨u, hu, rfl⟩ := List.mem_map.mp hw
        rw [run_concat (hwords u hu), hstep]
      obtain ⟨next₁, hadd, h₁⟩ := h.add _ hwords'
      rw [List.length_map] at hadd
      have hspread : a.spreadFrom q words.length (s :: symbols) next =
          a.spreadFrom q words.length symbols next₁ := by
        rw [spreadFrom, hstep, ok_bind, index_eq, ok_bind, hadd, ok_bind]
      rw [hspread]
      refine (ih h₁).imp (fun hok => ?_) id
      obtain ⟨next', book', hnext', h', hbook'⟩ := hok
      refine ⟨next', book', hnext', h', ?_⟩
      rw [hbook', List.map_append, List.map_map, List.flatMap_cons, List.append_assoc]
      simp [Function.comp_def]

/-- Spreading a vector enters the words of its book with each symbol appended, state by state, or
fails at a step from a state that a word of the book leads to. -/
theorem spread_spec {ways : Ways} {book₀ : List (Q × List S)} (h₀ : Tally a ways book₀)
    (symbols : List S) : ∀ (states : List Q) {next : Ways} {book : List (Q × List S)},
    Tally a next book →
    (∃ next' book', a.spread symbols ways states next = .ok next' ∧ Tally a next' book' ∧
      book'.map Prod.snd = book.map Prod.snd ++ states.flatMap fun q =>
        symbols.flatMap fun s => (wordsTo book₀ q).map (· ++ [s])) ∨
      Fails (a.spread symbols ways states next) ∧
        ∃ q w s, (q, w) ∈ book₀ ∧ Fails (a.step q s) := by
  intro states
  induction states with
  | nil =>
    intro next book h
    exact Or.inl ⟨next, book, rfl, h, by rw [List.flatMap_nil, List.append_nil]⟩
  | cons q states ih =>
    intro next book h
    have hread : a.spread symbols ways (q :: states) next =
        if (wordsTo book₀ q).length = 0 then a.spread symbols ways states next
        else a.spreadFrom q (wordsTo book₀ q).length symbols next >>=
          a.spread symbols ways states := by
      rw [spread, index_eq, ok_bind, h₀.get_eq_ok, ok_bind]
    rw [hread]
    split
    next hnone =>
      -- a state without words is passed over, and its part of the book is empty
      have hnil : (symbols.flatMap fun s => (wordsTo book₀ q).map (· ++ [s])) = [] := by
        rw [List.length_eq_zero_iff.mp hnone]
        simp
      rw [List.flatMap_cons, hnil, List.nil_append]
      exact ih h
    next hsome =>
      have hwords : ∀ w ∈ wordsTo book₀ q, a.run a.start w = .ok q := fun w hw =>
        h₀.run_eq q w (mem_wordsTo.mp hw)
      rcases spreadFrom_spec hwords symbols h with
        ⟨next₁, book₁, hspread, h₁, hbook₁⟩ | ⟨hfails, s, hs⟩
      · rw [hspread, ok_bind]
        refine (ih h₁).imp (fun hok => ?_) id
        obtain ⟨next', book', hnext', h', hbook'⟩ := hok
        refine ⟨next', book', hnext', h', ?_⟩
        rw [hbook', hbook₁, List.flatMap_cons, List.append_assoc]
      · -- the state has a word, since its count is not zero
        obtain ⟨w, hw⟩ := List.exists_mem_of_length_pos (Nat.pos_of_ne_zero hsome)
        exact Or.inr ⟨fails_bind.mpr (Or.inl hfails), q, w, s, mem_wordsTo.mp hw, hs⟩

theorem tally_zero (a : Automaton S Q) : Tally a (Ways.zero Q) [] := by
  refine ⟨Array.size_replicate, fun q => ?_, fun q w hq => absurd hq List.not_mem_nil⟩
  rw [Ways.zero, Array.getElem?_replicate, if_pos (number_lt q)]
  rfl

/-- In the beginning there is the empty word, and it leads to the start state. -/
theorem emptyWordWays_spec (a : Automaton S Q) :
    ∃ ways, a.emptyWordWays = .ok ways ∧ Tally a ways [(a.start, [])] := by
  obtain ⟨ways, hadd, h⟩ := (tally_zero a).add (r := a.start) [[]] fun w hw => by
    rw [List.mem_singleton.mp hw]
    rfl
  exact ⟨ways, by rw [emptyWordWays, index_eq]; exact hadd, h⟩

end Round

/-! ## All rounds -/

/-- The list holds the words of a length, each of them once. -/
def AllOfLength (n : Nat) (words : List (List S)) : Prop :=
  words.Nodup ∧ ∀ w, w ∈ words ↔ w.length = n

section Rounds

variable [LawfulIndexed S] [LawfulIndexed Q] {a : Automaton S Q}

omit [LawfulIndexed S] in
/-- A word of a right book leads to one state only. -/
theorem wordsTo_unique {book : List (Q × List S)}
    (hrun : ∀ q w, (q, w) ∈ book → a.run a.start w = .ok q) {p q : Q} {w : List S}
    (hp : w ∈ wordsTo book p) (hq : w ∈ wordsTo book q) : p = q := by
  have hpq := hrun p w (mem_wordsTo.mp hp)
  rw [hrun q w (mem_wordsTo.mp hq)] at hpq
  exact (Except.ok.inj hpq).symm

/-- The words of a length with every symbol appended are those of the next length. -/
theorem AllOfLength.succ {ways : Ways} {book : List (Q × List S)} {n : Nat}
    (h : Tally a ways book) (hall : AllOfLength n (book.map Prod.snd)) :
    AllOfLength (n + 1) ((values Q).flatMap fun q =>
      (values S).flatMap fun s => (wordsTo book q).map (· ++ [s])) := by
  obtain ⟨hnodup, hmem⟩ := hall
  refine ⟨?_, fun w => ?_⟩
  · rw [List.Nodup, List.pairwise_flatMap]
    refine ⟨fun q _ => ?_, ?_⟩
    · -- to one state: the words differ, or the symbols do
      rw [List.pairwise_flatMap]
      refine ⟨fun s _ => ?_, ?_⟩
      · rw [List.pairwise_map]
        have hwords : (wordsTo book q).Nodup := hnodup.sublist (List.filter_sublist.map _)
        exact hwords.imp fun hne heq => hne (List.append_cancel_right heq)
      · refine nodup_values.imp fun hne => ?_
        intro x hx y hy heq
        obtain ⟨u, _, rfl⟩ := List.mem_map.mp hx
        obtain ⟨v, _, rfl⟩ := List.mem_map.mp hy
        exact hne (List.cons.inj (List.append_inj' heq rfl).2).1
    · -- to two states: no word leads to both
      refine nodup_values.imp fun hne => ?_
      intro x hx y hy heq
      obtain ⟨s, _, hx⟩ := List.mem_flatMap.mp hx
      obtain ⟨t, _, hy⟩ := List.mem_flatMap.mp hy
      obtain ⟨u, hu, rfl⟩ := List.mem_map.mp hx
      obtain ⟨v, hv, rfl⟩ := List.mem_map.mp hy
      obtain rfl : u = v := (List.append_inj' heq rfl).1
      exact hne (wordsTo_unique h.run_eq hu hv)
  · simp only [List.mem_flatMap, List.mem_map]
    constructor
    · intro hw
      obtain ⟨q, _, s, _, u, hu, rfl⟩ := hw
      have hlen := (hmem u).mp (List.mem_map_of_mem (mem_wordsTo.mp hu))
      rw [List.length_append, hlen]
      rfl
    · intro hw
      -- take the last symbol off and look up where the rest leads
      have hne : w ≠ [] := List.ne_nil_of_length_eq_add_one hw
      have hlen : w.dropLast.length = n := by rw [List.length_dropLast, hw, Nat.add_sub_cancel]
      obtain ⟨⟨q, u⟩, hu, heq⟩ := List.mem_map.mp ((hmem w.dropLast).mpr hlen)
      refine ⟨q, mem_values q, w.getLast hne, mem_values _, u, mem_wordsTo.mpr hu, ?_⟩
      rw [show u = w.dropLast from heq, List.dropLast_concat_getLast]

/-- After `k` more rounds the book holds the words that are longer by `k`, or a round has met a
fault on the way of a word that is no longer than those. -/
theorem lengthen_spec : ∀ (k : Nat) {n : Nat} {ways : Ways} {book : List (Q × List S)},
    Tally a ways book → AllOfLength n (book.map Prod.snd) →
    (∃ ways' book', a.lengthen (values S) (values Q) k ways = .ok ways' ∧ Tally a ways' book' ∧
      AllOfLength (n + k) (book'.map Prod.snd)) ∨
      Fails (a.lengthen (values S) (values Q) k ways) ∧
        ∃ w, w.length ≤ n + k ∧ Fails (a.run a.start w) := by
  intro k
  induction k with
  | zero =>
    intro n ways book h hall
    exact Or.inl ⟨ways, book, rfl, h, hall⟩
  | succ k ih =>
    intro n ways book h hall
    rcases spread_spec h (values S) (values Q) (tally_zero a) with
      ⟨next, book₁, hspread, h₁, hbook₁⟩ | ⟨hfails, q, w, s, hw, hs⟩
    · rw [lengthen, hspread, ok_bind]
      have hall₁ : AllOfLength (n + 1) (book₁.map Prod.snd) := by
        rw [hbook₁]
        exact hall.succ h
      have hnext := ih h₁ hall₁
      rwa [Nat.add_assoc, Nat.add_comm 1] at hnext
    · refine Or.inr ⟨by rw [lengthen]; exact fails_bind.mpr (Or.inl hfails), w ++ [s], ?_, ?_⟩
      · have hlen := (hall.2 w).mp (List.mem_map_of_mem hw)
        rw [List.length_append, List.length_singleton, hlen]
        omega
      · rwa [run_concat (h.run_eq q w hw)]

/-- Counting the accepted words of a length adds up, over the terminal states, how many words of a
book of all words of the length lead there, or fails on the way of a word that is no longer. -/
theorem countAccepted_spec (a : Automaton S Q) (n : Nat) :
    (∃ book, AllOfLength n (book.map Prod.snd) ∧ (∀ q w, (q, w) ∈ book → a.run a.start w = .ok q) ∧
      a.countAccepted n = .ok ((((values Q).filter (· ∈ a.terminal)).map fun q =>
        (wordsTo book q).length).foldl (· + ·) 0)) ∨
      Fails (a.countAccepted n) ∧ ∃ w, w.length ≤ n ∧ Fails (a.run a.start w) := by
  obtain ⟨ways₀, hempty, h₀⟩ := emptyWordWays_spec a
  have hall₀ : AllOfLength 0 ([(a.start, ([] : List S))].map Prod.snd) := by
    refine ⟨List.pairwise_singleton _ _, fun w => ?_⟩
    rw [List.length_eq_zero_iff]
    exact List.mem_singleton
  have hlengthen := lengthen_spec n h₀ hall₀
  rw [Nat.zero_add] at hlengthen
  have hcount : a.countAccepted n =
      (do
        let ways ← a.lengthen (values S) (values Q) n ways₀
        let counts ← ((values Q).filter (· ∈ a.terminal)).mapM fun q => do ways.get (← index q)
        return counts.foldl (· + ·) 0) := by
    rw [countAccepted, all_eq, all_eq, hempty, StateSet.toList_eq_ok]
    rfl
  rw [hcount]
  rcases hlengthen with ⟨ways, book, hways, h, hall⟩ | ⟨hfails, hw⟩
  · refine Or.inl ⟨book, hall, h.run_eq, ?_⟩
    have hget : ∀ q, (do ways.get (← index q)) = .ok (wordsTo book q).length := fun q => by
      rw [index_eq, ok_bind, h.get_eq_ok]
    rw [hways, ok_bind, mapM_eq_ok _ fun q _ => hget q]
    rfl
  · exact Or.inr ⟨fails_bind.mpr (Or.inl hfails), hw⟩

/-- Counting the accepted words of a length fails exactly when the run over one of the words of that
length does. -/
theorem fails_countAccepted {n : Nat} :
    Fails (a.countAccepted n) ↔ ∃ w, w.length = n ∧ Fails (a.run a.start w) := by
  rcases countAccepted_spec a n with ⟨book, hall, hrun, hcount⟩ | ⟨hfails, w, hlen, hw⟩
  · rw [hcount]
    refine iff_of_false (not_fails_ok _) fun h => ?_
    obtain ⟨w, hlen, hw⟩ := h
    obtain ⟨⟨q, _⟩, hq, rfl⟩ := List.mem_map.mp ((hall.2 w).mpr hlen)
    rw [hrun q _ hq] at hw
    exact not_fails_ok q hw
  · refine iff_of_true hfails ?_
    -- a longer word fails with it, and there is one as long as wanted
    cases w with
    | nil => exact absurd hw (not_fails_ok a.start)
    | cons s w =>
      refine ⟨(s :: w) ++ List.replicate (n - (s :: w).length) s, ?_, fails_run_append hw _⟩
      rw [List.length_append, List.length_replicate]
      omega

/-- Where no run fails, no count fails. -/
theorem Unfailing.not_fails_countAccepted (h : a.Unfailing) (n : Nat) :
    ¬Fails (a.countAccepted n) := by
  intro hfails
  obtain ⟨w, _, hw⟩ := fails_countAccepted.mp hfails
  exact h w hw

end Rounds

end Automata.Automaton
