import Mathlib.Data.Finset.Card
import Automata.Proofs.Counts
import Automata.Proofs.Decisions

/-!
# Counting accepted words

Counting goes from length to length and keeps one number for each state, while there are as many
words as choices of a symbol at every place. `Counts` has the words behind these numbers: a book of
all words of a length, each with the state it leads to. What is left is to collect the words that
lead to terminal states. No word leads to two of them, so the sum of their numbers counts each
accepted word once.

> `countAccepted_eq_card`: if no run fails, the answer for a length is the number of elements of the
> set of the accepted words of this length.

For a single length less is enough: `countAccepted_census` asks only that the count itself does not
fail.
-/

namespace Automata.Automaton

variable {S Q : Type} [Indexed S] [Indexed Q] [LawfulIndexed Q] {a : Automaton S Q} {n : Nat}
  {book : List (Q × List S)}

/-- The words that are entered in the book for the terminal states. -/
def acceptedWords (a : Automaton S Q) (book : List (Q × List S)) : List (List S) :=
  ((values Q).filter (· ∈ a.terminal)).flatMap (wordsTo book)

/-- No word is in the book twice, since the run over a word ends in one state. -/
theorem nodup_acceptedWords (hall : AllOfLength n (book.map Prod.snd))
    (hrun : ∀ q w, (q, w) ∈ book → a.run a.start w = .ok q) : (acceptedWords a book).Nodup := by
  unfold acceptedWords
  rw [List.Nodup, List.pairwise_flatMap]
  refine ⟨fun q _ => hall.1.sublist (List.filter_sublist.map _), ?_⟩
  refine (nodup_values.filter _).imp fun hne => ?_
  intro u hu v hv heq
  subst heq
  exact hne (wordsTo_unique hrun hu hv)

/-- A word of the length is accepted when it stands in the book beside a terminal state. -/
theorem mem_acceptedWords (hall : AllOfLength n (book.map Prod.snd))
    (hrun : ∀ q w, (q, w) ∈ book → a.run a.start w = .ok q) (w : List S) :
    w ∈ acceptedWords a book ↔ w.length = n ∧ a.accepts w = .ok true := by
  unfold acceptedWords
  rw [List.mem_flatMap, accepts_eq_true]
  constructor
  · intro h
    obtain ⟨q, hq, hw⟩ := h
    have hmem := mem_wordsTo.mp hw
    refine ⟨(hall.2 w).mp (List.mem_map_of_mem hmem), q, hrun q w hmem, ?_⟩
    exact of_decide_eq_true (List.mem_filter.mp hq).2
  · intro h
    obtain ⟨hlen, q, hq, hterminal⟩ := h
    -- every word of the length is in the book, under the state that it leads to
    obtain ⟨⟨p, u⟩, hp, rfl⟩ := List.mem_map.mp ((hall.2 w).mpr hlen)
    have hpq := hrun p u hp
    rw [hq] at hpq
    cases hpq
    exact ⟨q, List.mem_filter.mpr ⟨mem_values q, decide_eq_true hterminal⟩, mem_wordsTo.mpr hp⟩

omit [LawfulIndexed Q] in
theorem length_acceptedWords (a : Automaton S Q) (book : List (Q × List S)) :
    (acceptedWords a book).length = (((values Q).filter (· ∈ a.terminal)).map fun q =>
      (wordsTo book q).length).foldl (· + ·) 0 := by
  rw [acceptedWords, List.length_flatMap, List.sum_eq_foldl]

variable [LawfulIndexed S]

/-- Where counting gives an answer, it is the number of the accepted words of the length. -/
theorem countAccepted_census (h : ¬Fails (a.countAccepted n)) :
    ∃ words : Finset (List S), (∀ w, w ∈ words ↔ w.length = n ∧ a.accepts w = .ok true) ∧
      a.countAccepted n = .ok words.card := by
  rcases countAccepted_spec a n with ⟨book, hall, hrun, hcount⟩ | ⟨hfails, _⟩
  · refine ⟨⟨(acceptedWords a book : Multiset (List S)), nodup_acceptedWords hall hrun⟩,
      mem_acceptedWords hall hrun, ?_⟩
    rw [hcount, ← length_acceptedWords]
    rfl
  · exact absurd hfails h

/-- **The count is exact.** If no run fails, counting the accepted words of any length answers with
the number of elements of the set of these words. -/
theorem countAccepted_eq_card (d : Automaton S Q) (hd : d.Unfailing) (n : Nat) :
    ∃ words : Finset (List S), (∀ w, w ∈ words ↔ w.length = n ∧ d.accepts w = .ok true) ∧
      d.countAccepted n = .ok words.card :=
  countAccepted_census (hd.not_fails_countAccepted n)

/-- Of the eight words of length three, the four that end in `false` are accepted, whatever happens
in the states that no word leads to. -/
theorem countAccepted_eq_card_endsInFalse :
    endsInFalse.Unfailing ∧ ∃ words : Finset (List Bool),
      (∀ w, w ∈ words ↔ w.length = 3 ∧ endsInFalse.accepts w = .ok true) ∧ words.card = 4 := by
  obtain ⟨words, hwords, hcount⟩ := countAccepted_eq_card endsInFalse endsInFalse_unfailing 3
  have hfour : endsInFalse.countAccepted 3 = .ok 4 := rfl
  exact ⟨endsInFalse_unfailing, words, hwords, Except.ok.inj (hcount.symm.trans hfour)⟩

end Automata.Automaton
