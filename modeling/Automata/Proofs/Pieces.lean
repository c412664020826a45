import Mathlib.Data.Nat.Find
import Automata.Automaton.Runner
import Automata.Proofs.Runs

/-!
# Words read in pieces

A runner is handed a word piece by piece and can be sent back to the start in between. Its state and
its count are two fields, and of the three ways to read two keep them as they were on a fault while
the third has read some symbols by then. The account given here is one of words alone: a `Position`
is a state of origin and the input read since, a piece is judged by the run over the whole input
from the origin, and no count is kept at all. `Stands` is the invariant that ties a runner to its
position. One call preserves it (`Stands.perform`), so a sequence of calls does.

The count is an index, and the account holds as long as what is read can be counted (`Counts`). That
is so whenever fewer symbols are handed over than there are indices (`counts_of_length`).

> `performAll_follows`: after any calls a runner is where the run from the origin over the effective
> input ends, and however a word is cut into pieces, it is read to the same end.
-/

namespace Automata

namespace Runner

variable {S Q : Type}

/-! ## Calls -/

/-- A call on a runner. -/
inductive Call (S : Type) where
  | push (s : S)
  | feed (piece : List S)
  | extend (word : List S)
  | reset

/-- The symbols that a call hands over. -/
def Call.symbols : Call S → List S
  | .push s => [s]
  | .feed piece => piece
  | .extend word => word
  | .reset => []

/-- The calls hand over the word, and nothing is taken back. -/
structure Cuts (calls : List (Call S)) (word : List S) : Prop where
  symbols_eq : calls.flatMap Call.symbols = word
  no_reset : ∀ call ∈ calls, call ≠ .reset

/-- What is behind the first call cuts the rest of the word. -/
theorem Cuts.tail {call : Call S} {calls : List (Call S)} {word : List S}
    (h : Cuts (call :: calls) word) : Cuts calls (calls.flatMap Call.symbols) :=
  ⟨rfl, fun c hc => h.no_reset c (List.mem_cons_of_mem call hc)⟩

variable [Indexed S] [Indexed Q]

/-- Carries out a call, and gives the fault it meets. -/
def perform (r : Runner S Q) : Call S → Runner S Q × Option Fault
  | .push s => r.pushed s
  | .feed piece => r.fed piece
  | .extend word => r.extend word
  | .reset => (r.reset, none)

/-- Carries out calls in order, and gives the fault of each. -/
def performAll : Runner S Q → List (Call S) → Runner S Q × List (Option Fault)
  | r, [] => (r, [])
  | r, call :: calls =>
    let next := r.perform call
    let last := performAll next.1 calls
    (last.1, next.2 :: last.2)

/-- None of the calls meets a fault. -/
def Reads (r : Runner S Q) (calls : List (Call S)) : Prop :=
  ∀ fault ∈ (r.performAll calls).2, fault = none

end Runner

/-! ## Positions -/

/-- Where reading began, and what was read since. -/
structure Position (S Q : Type) where
  origin : Q
  input : List S
  deriving DecidableEq

namespace Position

variable {S Q : Type}

/-- The position after some more symbols. -/
def append (p : Position S Q) (word : List S) : Position S Q := ⟨p.origin, p.input ++ word⟩

@[simp] theorem append_nil (p : Position S Q) : p.append [] = p := by
  rw [append, List.append_nil]

theorem append_append (p : Position S Q) (u v : List S) :
    (p.append u).append v = p.append (u ++ v) := by
  rw [append, append, append, List.append_assoc]

variable [Indexed S] [Indexed Q]

/-- The run from the origin over what was read. -/
def run (a : Automaton S Q) (p : Position S Q) : Checked Q := a.run p.origin p.input

/-- The run from the origin goes on over the word. -/
def CanRead (a : Automaton S Q) (p : Position S Q) (word : List S) : Prop :=
  ¬Fails ((p.append word).run a)

instance (a : Automaton S Q) (p : Position S Q) (word : List S) : Decidable (p.CanRead a word) :=
  inferInstanceAs (Decidable (¬Fails ((p.append word).run a)))

/-- The longest first part of the word that can be read. -/
def readable (a : Automaton S Q) (p : Position S Q) (word : List S) : List S :=
  word.take (Nat.findGreatest (fun k => p.CanRead a (word.take k)) word.length)

/-- The position to which a call leads. A symbol or a piece is read as a whole or not at all, of a
word that is read symbol by symbol all counts that can be read, and a reset makes the start state of
the automaton the origin. -/
def follow (a : Automaton S Q) (p : Position S Q) : Runner.Call S → Position S Q
  | .push s => if p.CanRead a [s] then p.append [s] else p
  | .feed piece => if p.CanRead a piece then p.append piece else p
  | .extend word => p.append (p.readable a word)
  | .reset => ⟨a.start, []⟩

def followAll (a : Automaton S Q) (p : Position S Q) (calls : List (Runner.Call S)) :
    Position S Q := calls.foldl (follow a) p

/-- What has been read can be counted, behind each of the calls. -/
def Counts (a : Automaton S Q) (p : Position S Q) (calls : List (Runner.Call S)) : Prop :=
  ∀ done, done <+: calls → (p.followAll a done).input.length < indexLimit

variable {a : Automaton S Q} {p : Position S Q}

theorem run_append (p : Position S Q) (word : List S) :
    (p.append word).run a = p.run a >>= fun q => a.run q word :=
  Automaton.run_append a p.input word p.origin

/-- Reading two parts is reading the second from where the first leads. -/
theorem canRead_append {u v : List S} : p.CanRead a (u ++ v) ↔ (p.append u).CanRead a v := by
  unfold CanRead
  rw [append_append]

/-- What can be read can be read up to any place. -/
theorem CanRead.of_append {u v : List S} (h : p.CanRead a (u ++ v)) : p.CanRead a u := by
  unfold CanRead at h ⊢
  rw [← append_append] at h
  exact fun hfail => h (Automaton.fails_run_append hfail v)

theorem CanRead.of_cons {u v : List S} {s : S} (h : p.CanRead a (u ++ s :: v)) :
    p.CanRead a (u ++ [s]) := by
  rw [List.append_cons] at h
  exact h.of_append

/-- A first part is the longest that can be read when the symbol behind it cannot be. -/
theorem readable_append {read rest : List S} (hread : p.CanRead a read)
    (hstop : ∀ s tail, rest = s :: tail → ¬p.CanRead a (read ++ [s])) :
    p.readable a (read ++ rest) = read := by
  have hlongest : Nat.findGreatest (fun k => p.CanRead a ((read ++ rest).take k))
      (read ++ rest).length = read.length := by
    rw [Nat.findGreatest_eq_iff]
    refine ⟨by rw [List.length_append]; omega, fun _ => by rwa [List.take_left], ?_⟩
    intro k hlt hle hk
    cases rest with
    | nil =>
      rw [List.append_nil] at hle
      omega
    | cons s tail =>
      -- a longer part has the unreadable symbol in it
      have hlonger : (read ++ s :: tail).take k =
          read ++ s :: tail.take (k - read.length - 1) := by
        rw [List.take_append, List.take_of_length_le (Nat.le_of_lt hlt), List.take_cons (by omega)]
      rw [hlonger] at hk
      exact hstop s tail rfl hk.of_cons
  unfold readable
  rw [hlongest, List.take_left]

/-- What can be read is taken as a whole, however it is handed over. -/
theorem follow_eq_append {call : Runner.Call S} (hcall : call ≠ .reset)
    (hcan : p.CanRead a call.symbols) : p.follow a call = p.append call.symbols := by
  cases call with
  | push s => exact if_pos hcan
  | feed piece => exact if_pos hcan
  | extend word =>
    have hall : p.readable a (word ++ []) = word :=
      readable_append hcan fun s tail heq => nomatch heq
    rw [List.append_nil] at hall
    exact congrArg p.append hall
  | reset => exact absurd rfl hcall

/-- A word is a part that can be read and a rest whose first symbol cannot be read behind it. -/
theorem exists_readable : ∀ (word : List S) {p : Position S Q}, p.CanRead a [] →
    ∃ read rest, word = read ++ rest ∧ p.CanRead a read ∧
      ∀ s tail, rest = s :: tail → ¬p.CanRead a (read ++ [s]) := by
  intro word
  induction word with
  | nil => exact fun hp => ⟨[], [], rfl, hp, fun s tail heq => nomatch heq⟩
  | cons s word ih =>
    intro p hp
    by_cases hs : p.CanRead a [s]
    · have hnext : (p.append [s]).CanRead a [] := canRead_append.mp hs
      obtain ⟨read, rest, rfl, hread, hstop⟩ := ih hnext
      refine ⟨s :: read, rest, rfl, canRead_append.mpr hread, fun t tail heq hcan => ?_⟩
      exact hstop t tail heq (canRead_append.mp hcan)
    · refine ⟨[], s :: word, rfl, hp, fun t tail heq => ?_⟩
      cases heq
      exact hs

/-- Read as a whole or not at all, a piece adds at most its own length. -/
theorem length_whole_le (p : Position S Q) (piece : List S) :
    (if p.CanRead a piece then p.append piece else p).input.length ≤
      p.input.length + piece.length := by
  by_cases hcan : p.CanRead a piece
  · rw [if_pos hcan]
    exact Nat.le_of_eq List.length_append
  · rw [if_neg hcan]
    exact Nat.le_add_right _ _

/-- A call reads no more symbols than it hands over. -/
theorem length_follow_le (p : Position S Q) (call : Runner.Call S) :
    (p.follow a call).input.length ≤ p.input.length + call.symbols.length := by
  cases call with
  | push s => exact p.length_whole_le [s]
  | feed piece => exact p.length_whole_le piece
  | extend word =>
    show (p.input ++ p.readable a word).length ≤ p.input.length + word.length
    rw [List.length_append]
    exact Nat.add_le_add_left (List.length_take_le' _ _) _
  | reset => exact Nat.zero_le _

/-- So the calls read at most as many symbols as they hand over. -/
theorem length_followAll_le : ∀ (calls : List (Runner.Call S)) (p : Position S Q),
    (p.followAll a calls).input.length ≤
      p.input.length + (calls.flatMap Runner.Call.symbols).length := by
  intro calls
  induction calls with
  | nil => intro p; exact Nat.le_add_right _ _
  | cons call calls ih =>
    intro p
    have hcall := length_follow_le (a := a) p call
    have hrest := ih (p.follow a call)
    rw [List.flatMap_cons, List.length_append]
    show ((p.follow a call).followAll a calls).input.length ≤ _
    omega

/-- What is read can be counted if there are fewer symbols than indices. -/
theorem counts_of_length {calls : List (Runner.Call S)}
    (h : p.input.length + (calls.flatMap Runner.Call.symbols).length < indexLimit) :
    p.Counts a calls := by
  rintro done ⟨others, rfl⟩
  have hdone := length_followAll_le (a := a) done p
  rw [List.flatMap_append, List.length_append] at h
  omega

/-- What the first call reads can be counted, -/
theorem Counts.head {call : Runner.Call S} {calls : List (Runner.Call S)}
    (h : p.Counts a (call :: calls)) : (p.follow a call).input.length < indexLimit :=
  h [call] ⟨calls, rfl⟩

/-- and so can what the others read from there. -/
theorem Counts.tail {call : Runner.Call S} {calls : List (Runner.Call S)}
    (h : p.Counts a (call :: calls)) : (p.follow a call).Counts a calls :=
  fun done hdone => h (call :: done) (List.cons_prefix_cons.mpr ⟨rfl, hdone⟩)

end Position

/-! ## Runners and positions -/

namespace Runner

variable {S Q : Type} [Indexed S] [Indexed Q] {a : Automaton S Q} {p : Position S Q}
  {r : Runner S Q}

/-- The runner is where the run from the origin has come to, and has counted what was read. -/
structure Stands (r : Runner S Q) (a : Automaton S Q) (p : Position S Q) : Prop where
  automaton_eq : r.automaton = a
  run_eq : p.run a = .ok r.state
  consumed_eq : r.consumed = p.input.length
  length_lt : p.input.length < indexLimit

/-- A fresh runner has read nothing. -/
theorem stands_ofState (a : Automaton S Q) (q : Q) : (ofState a q).Stands a ⟨q, []⟩ :=
  ⟨rfl, rfl, rfl, (by decide : 0 < indexLimit)⟩

/-- To read a symbol is to read a piece of one symbol. -/
theorem pushed_eq_fed (r : Runner S Q) (s : S) : r.pushed s = r.fed [s] := by
  unfold pushed fed
  rw [Automaton.run_cons]
  cases r.automaton.step r.state s <;> rfl

namespace Stands

/-- A position has one runner only. -/
theorem unique {r' : Runner S Q} (h : r.Stands a p) (h' : r'.Stands a p) : r = r' := by
  have hstate : r.state = r'.state := by
    have hrun := h.run_eq.symm.trans h'.run_eq
    rwa [Except.ok.injEq] at hrun
  have hautomaton : r.automaton = r'.automaton := h.automaton_eq.trans h'.automaton_eq.symm
  have hconsumed : r.consumed = r'.consumed := h.consumed_eq.trans h'.consumed_eq.symm
  cases r
  cases r'
  cases hautomaton
  cases hstate
  cases hconsumed
  rfl

/-- The run over the input goes on from the state of the runner. -/
theorem run_append (h : r.Stands a p) (word : List S) :
    (p.append word).run a = a.run r.state word := by
  rw [Position.run_append, h.run_eq, ok_bind]

theorem canRead_nil (h : r.Stands a p) : p.CanRead a [] := by
  unfold Position.CanRead
  rw [h.run_append]
  exact not_fails_ok r.state

/-- A piece is read and counted; or it cannot be read, and nothing happens; or it can be read and
not be counted. -/
theorem fed (h : r.Stands a p) (piece : List S) :
    (p.CanRead a piece ∧ p.input.length + piece.length < indexLimit ∧
        ∃ next, r.fed piece = (next, none) ∧ next.Stands a (p.append piece)) ∨
      (¬p.CanRead a piece ∧ ∃ fault, r.fed piece = (r, some fault)) ∨
      (p.CanRead a piece ∧ indexLimit ≤ p.input.length + piece.length ∧
        ∃ left fault, r.fed piece = (left, some fault)) := by
  have hrun := h.run_append piece
  obtain rfl := h.automaton_eq
  unfold Position.CanRead Runner.fed move
  rw [h.consumed_eq]
  cases hstate : r.automaton.run r.state piece with
  | error fault =>
    rw [hstate] at hrun
    rw [hrun]
    exact Or.inr (Or.inl ⟨not_not_intro (fails_error fault), fault, rfl⟩)
  | ok q =>
    rw [hstate] at hrun
    rw [hrun]
    by_cases hlt : p.input.length + piece.length < indexLimit
    · -- the run goes on, and what was read can be counted
      have hadd : addIndex p.input.length piece.length = .ok (p.input.length + piece.length) :=
        if_pos hlt
      have hlength : p.input.length + piece.length = (p.append piece).input.length :=
        List.length_append.symm
      rw [hadd]
      exact Or.inl ⟨not_fails_ok q, hlt, _, rfl, rfl, hrun, hlength, hlength ▸ hlt⟩
    · -- the runner has moved by the time it counts
      have hadd : addIndex p.input.length piece.length = .error .addOverflow := if_neg hlt
      rw [hadd]
      exact Or.inr (Or.inr ⟨not_fails_ok q, Nat.not_lt.mp hlt, _, _, rfl⟩)

/-- Symbol by symbol, what can be read and counted is read, and reading goes on behind it. -/
theorem exists_read : ∀ (read : List S) {r : Runner S Q} {p : Position S Q}, r.Stands a p →
    p.CanRead a read → p.input.length + read.length < indexLimit →
    ∃ next : Runner S Q, next.Stands a (p.append read) ∧
      ∀ rest, r.extend (read ++ rest) = next.extend rest := by
  intro read
  induction read with
  | nil =>
    intro r p h _ _
    exact ⟨r, by rwa [p.append_nil], fun rest => rfl⟩
  | cons s read ih =>
    intro r p h hcan hlt
    have hs : p.CanRead a [s] := Position.CanRead.of_append (v := read) hcan
    have hnext : (p.append [s]).CanRead a read := Position.canRead_append.mp hcan
    rw [List.length_cons] at hlt
    rcases h.fed [s] with ⟨_, _, next, hfed, hstands⟩ | ⟨hcannot, _⟩ | ⟨_, hle, _⟩
    · have hlength : (p.append [s]).input.length = p.input.length + 1 := List.length_append
      obtain ⟨last, hlast, hrest⟩ := ih hstands hnext (by omega)
      rw [p.append_append] at hlast
      refine ⟨last, hlast, fun rest => ?_⟩
      rw [List.cons_append, Runner.extend, pushed_eq_fed, hfed]
      exact hrest rest
    · exact absurd hs hcannot
    · rw [List.length_singleton] at hle
      omega

/-- Symbol by symbol the longest part that can be read is read. -/
theorem extend (h : r.Stands a p) (word : List S)
    (hlt : (p.append (p.readable a word)).input.length < indexLimit) :
    (r.extend word).1.Stands a (p.append (p.readable a word)) := by
  obtain ⟨read, rest, rfl, hcan, hstop⟩ := Position.exists_readable word h.canRead_nil
  rw [Position.readable_append hcan hstop] at hlt ⊢
  rw [Position.append, List.length_append] at hlt
  obtain ⟨next, hnext, hrest⟩ := h.exists_read read hcan hlt
  rw [hrest]
  cases rest with
  | nil => exact hnext
  | cons s tail =>
    -- the rest begins with a symbol that cannot be read, so the runner stays where it is
    have hcannot : ¬(p.append read).CanRead a [s] := fun hs =>
      hstop s tail rfl (Position.canRead_append.mpr hs)
    rw [Runner.extend, pushed_eq_fed]
    rcases hnext.fed [s] with ⟨hs, _⟩ | ⟨_, fault, hfed⟩ | ⟨hs, _⟩
    · exact absurd hs hcannot
    · rw [hfed]
      exact hnext
    · exact absurd hs hcannot

/-- No fault is met exactly when the whole word can be read and counted. -/
theorem extend_eq_none_iff : ∀ (word : List S) {r : Runner S Q} {p : Position S Q},
    r.Stands a p → ((r.extend word).2 = none ↔
      p.CanRead a word ∧ p.input.length + word.length < indexLimit) := by
  intro word
  induction word with
  | nil => exact fun h => iff_of_true rfl ⟨h.canRead_nil, h.length_lt⟩
  | cons s word ih =>
    intro r p h
    rw [Runner.extend, pushed_eq_fed, List.length_cons]
    rcases h.fed [s] with ⟨_, _, next, hfed, hstands⟩ | ⟨hcannot, fault, hfed⟩ |
      ⟨_, hle, left, fault, hfed⟩
    · have hsplit : p.CanRead a (s :: word) ↔ (p.append [s]).CanRead a word :=
        Position.canRead_append (u := [s])
      have hlength : (p.append [s]).input.length + word.length =
          p.input.length + (word.length + 1) := by
        rw [Position.append, List.length_append, List.length_singleton, Nat.add_assoc,
          Nat.add_comm 1]
      rw [hfed, hsplit, ← hlength]
      exact ih hstands
    · rw [hfed]
      exact iff_of_false nofun fun hall => hcannot (Position.CanRead.of_append (v := word) hall.1)
    · rw [hfed]
      rw [List.length_singleton] at hle
      exact iff_of_false nofun fun hall => by omega

/-- A symbol or a piece is read as a whole or not at all. -/
theorem fed_follow (h : r.Stands a p) (piece : List S)
    (hlt : (if p.CanRead a piece then p.append piece else p).input.length < indexLimit) :
    (r.fed piece).1.Stands a (if p.CanRead a piece then p.append piece else p) := by
  rcases h.fed piece with ⟨hcan, _, next, hfed, hstands⟩ | ⟨hcannot, fault, hfed⟩ | ⟨hcan, hle, _⟩
  · rw [hfed, if_pos hcan]
    exact hstands
  · rw [hfed, if_neg hcannot]
    exact h
  · rw [if_pos hcan, Position.append, List.length_append] at hlt
    exact absurd hlt (Nat.not_lt.mpr hle)

theorem fed_eq_none_iff (h : r.Stands a p) (piece : List S) : (r.fed piece).2 = none ↔
    p.CanRead a piece ∧ p.input.length + piece.length < indexLimit := by
  rcases h.fed piece with ⟨hcan, hlt, next, hfed, _⟩ | ⟨hcannot, fault, hfed⟩ |
    ⟨_, hle, left, fault, hfed⟩
  · rw [hfed]
    exact iff_of_true rfl ⟨hcan, hlt⟩
  · rw [hfed]
    exact iff_of_false nofun fun hall => hcannot hall.1
  · rw [hfed]
    exact iff_of_false nofun fun hall => Nat.not_lt.mpr hle hall.2

/-- **A call keeps a runner and its position together**, as long as what is read can be counted. -/
theorem perform (h : r.Stands a p) (call : Call S)
    (hlt : (p.follow a call).input.length < indexLimit) :
    (r.perform call).1.Stands a (p.follow a call) := by
  cases call with
  | push s =>
    show (r.pushed s).1.Stands a _
    rw [pushed_eq_fed]
    exact h.fed_follow [s] hlt
  | feed piece => exact h.fed_follow piece hlt
  | extend word => exact h.extend word hlt
  | reset =>
    show (ofStart r.automaton).Stands a ⟨a.start, []⟩
    rw [h.automaton_eq]
    exact stands_ofState a a.start

/-- A call meets no fault exactly when its symbols can be read and counted. -/
theorem perform_eq_none_iff (h : r.Stands a p) (call : Call S) : (r.perform call).2 = none ↔
    p.CanRead a call.symbols ∧ p.input.length + call.symbols.length < indexLimit := by
  cases call with
  | push s =>
    show (r.pushed s).2 = none ↔ _
    rw [pushed_eq_fed]
    exact h.fed_eq_none_iff [s]
  | feed piece => exact h.fed_eq_none_iff piece
  | extend word => exact h.extend_eq_none_iff word
  | reset => exact iff_of_true rfl ⟨h.canRead_nil, h.length_lt⟩

/-- **What one call preserves, a sequence of calls preserves.** -/
theorem performAll : ∀ (calls : List (Call S)) {r : Runner S Q} {p : Position S Q},
    r.Stands a p → p.Counts a calls →
    (r.performAll calls).1.Stands a (p.followAll a calls) := by
  intro calls
  induction calls with
  | nil => intro r p h _; exact h
  | cons call calls ih => intro r p h hcounts; exact ih (h.perform call hcounts.head) hcounts.tail

end Stands

/-! ## Cuts -/

/-- A word that is cut into pieces is read without a fault exactly when the run over the whole word
meets none, and then it is read to its end. -/
theorem Cuts.reads_iff : ∀ {calls : List (Call S)} {word : List S} {r : Runner S Q}
    {p : Position S Q}, Cuts calls word → r.Stands a p →
      p.input.length + word.length < indexLimit →
      (r.Reads calls ↔ p.CanRead a word) ∧
      (r.Reads calls → p.followAll a calls = p.append word) := by
  intro calls
  induction calls with
  | nil =>
    intro word r p h hstands _
    obtain rfl := h.symbols_eq
    refine ⟨⟨fun _ => hstands.canRead_nil, fun _ fault hfault => nomatch hfault⟩, fun _ => ?_⟩
    exact p.append_nil.symm
  | cons call calls ih =>
    intro word r p h hstands hlt
    obtain rfl := h.symbols_eq
    rw [List.flatMap_cons, List.length_append] at hlt
    have hcall : p.input.length + call.symbols.length < indexLimit := by omega
    have hfault := hstands.perform_eq_none_iff call
    rw [and_iff_left hcall] at hfault
    have hreset : call ≠ .reset := h.no_reset call (List.mem_cons_self ..)
    have hreads : r.Reads (call :: calls) ↔
        (r.perform call).2 = none ∧ (r.perform call).1.Reads calls := List.forall_mem_cons
    rw [List.flatMap_cons, hreads, hfault]
    by_cases hcan : p.CanRead a call.symbols
    · -- the call is read as a whole, and the rest goes on from there
      have hfollow := Position.follow_eq_append hreset hcan
      have hlength : (p.append call.symbols).input.length =
          p.input.length + call.symbols.length := List.length_append
      have hnext := hstands.perform call (by rwa [hfollow, hlength])
      rw [hfollow] at hnext
      obtain ⟨hrest, hend⟩ := ih h.tail hnext (by omega)
      rw [Position.canRead_append, ← hrest]
      refine ⟨and_iff_right hcan, fun hall => ?_⟩
      show (p.follow a call).followAll a calls = _
      rw [hfollow, hend hall.2, p.append_append]
    · refine ⟨⟨fun hall => absurd hall.1 hcan, fun hall => absurd hall.of_append hcan⟩, ?_⟩
      exact fun hall => absurd hall.1 hcan

/-- The pieces of a word can be counted if the word can. -/
theorem Cuts.counts {calls : List (Call S)} {word : List S} (h : Cuts calls word)
    (hlt : p.input.length + word.length < indexLimit) : p.Counts a calls :=
  Position.counts_of_length (by rwa [h.symbols_eq])

/-! ## What a runner tells -/

/-- The runner is where the run from the origin over the effective input ends, has counted its
symbols, accepts when it is in a terminal state, and meets a fault when the run over the next
symbols does or they cannot be counted. -/
structure Follows (r : Runner S Q) (a : Automaton S Q) (p : Position S Q) : Prop where
  run_eq : a.run p.origin p.input = .ok r.state
  consumed_eq : r.consumed = p.input.length
  isAccepting_eq : r.isAccepting = .ok (decide (r.state ∈ a.terminal))
  fault_iff : ∀ call, (r.perform call).2 = none ↔
    ¬Fails (a.run p.origin (p.input ++ call.symbols)) ∧
      p.input.length + call.symbols.length < indexLimit

theorem Stands.follows [LawfulIndexed Q] (h : r.Stands a p) : r.Follows a p where
  run_eq := h.run_eq
  consumed_eq := h.consumed_eq
  isAccepting_eq := by
    unfold isAccepting
    rw [h.automaton_eq, Automaton.isTerminal_eq]
  fault_iff call := h.perform_eq_none_iff call

/-- Remembers the last symbol, and has no successor for a second `true` in a row. -/
def noTwoTrues : Automaton Bool Bool where
  start := false
  terminal := .full
  transition := .computed fun q s => if q && s then .error (.beyondNamed "bool" 2) else .ok s

/-- Symbols, pieces and words of which some cannot be read, before and after a reset. -/
def stumbling : List (Call Bool) :=
  [.push true, .push false, .extend [true, false, true, true, false], .feed [false, true, true],
    .reset, .feed [true, true], .extend [true, false]]

end Runner

end Automata
