import Automata.BitSet.Basic
import Automata.RowMajor

/-!
# Walking through a bit set

An iterator hands out the members of a bit set in increasing order, one at a time. It keeps the
bits of the current word that are still to come, the number of that word, and the words behind it.
Once it has run out, a request still goes on to the number of the next word before it answers that
there is nothing left. The number is an index, so there are only so many such answers: the request
for which no number is left is a fault.
-/

namespace Automata.BitSet

/-- A position in a walk through the members of a set. -/
structure Iterator where
  /-- The bits of the current word that are still to come. -/
  pending : UInt64
  /-- The number of the current word, or the number that the walk has come to beyond the last. -/
  word : Nat
  /-- The words behind the current one. -/
  rest : List UInt64
  deriving DecidableEq

namespace Iterator

/-- The next member in `pending` or else in `rest`, and the position behind it. A word that there is
has an index for its number, so only behind the last word can the numbers run out. -/
def advance (pending : UInt64) (word : Nat) : List UInt64 → Checked (Option Nat) × Iterator
  | [] =>
    match Words.lowest? pending with
    | some k => (.ok (some (64 * word + k)), ⟨pending &&& ~~~ Words.single k, word, []⟩)
    | none =>
      match addIndex word 1 with
      | .ok beyond => (.ok none, ⟨pending, beyond, []⟩)
      | .error fault => (.error fault, ⟨pending, word, []⟩)
  | w :: rest =>
    match Words.lowest? pending with
    | some k => (.ok (some (64 * word + k)), ⟨pending &&& ~~~ Words.single k, word, w :: rest⟩)
    | none => advance w (word + 1) rest

/-- Hands out the next member, or nothing when all have been handed out. -/
def next (it : Iterator) : Checked (Option Nat) × Iterator := advance it.pending it.word it.rest

/-- The answers to the next `n` requests, up to the first that meets a fault. -/
def take : Nat → Iterator → List (Option Nat)
  | 0, _ => []
  | n + 1, it =>
    match it.next with
    | (.ok answer, it') => answer :: take n it'
    | (.error _, _) => []

/-- The members handed out by at most `n` requests, up to the first empty answer. -/
def drain : Nat → Iterator → List Nat
  | 0, _ => []
  | n + 1, it =>
    match it.next with
    | (.ok (some i), it') => i :: drain n it'
    | _ => []

end Iterator

/-- The walk that starts at the smallest member. -/
def iterator (s : BitSet) : Iterator :=
  match s.words.toList with
  | [] => ⟨0, 0, []⟩
  | w :: rest => ⟨w, 0, rest⟩

/-- The members in increasing order. A set has at most `extent` of them. -/
def toList (s : BitSet) : List Nat := s.iterator.drain s.extent

end Automata.BitSet
