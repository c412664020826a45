import Automata.Fault
import Automata.BitSet.Words

/-!
# Bit sets

A bit set holds numbers below its extent, one bit each, packed into words. Its type carries the
two facts that make the representation canonical: there are just enough words, and no bit is set
from the extent on. So equal sets of one extent are equal as data, and counting, complement and
comparison can work word by word.
-/

namespace Automata

/-- A set of numbers below `extent`. -/
structure BitSet where
  words : Array UInt64
  extent : Nat
  size_words : words.size = Words.count extent
  bit_eq_false : ∀ i, extent ≤ i → Words.bit words i = false
  deriving DecidableEq

namespace BitSet

/-- Whether `i` is a member. No number outside the universe is. -/
def contains (s : BitSet) (i : Nat) : Bool := Words.bit s.words i

/-- The set without members. -/
def empty (extent : Nat) : BitSet where
  words := Array.replicate (Words.count extent) 0
  extent := extent
  size_words := Array.size_replicate
  bit_eq_false i _ := Words.bit_replicate_zero _ i

/-- The set whose words are `words` up to `extent`; bits from there on are dropped. -/
def ofWords (extent : Nat) (words : Array UInt64) (h : words.size = Words.count extent) :
    BitSet where
  words := Words.clearTail extent words
  extent := extent
  size_words := (Words.size_clearTail extent words).trans h
  bit_eq_false i hi := by
    rw [Words.bit_clearTail h, decide_eq_false (Nat.not_lt.2 hi), Bool.false_and]

/-- The set of all numbers below `extent`. -/
def full (extent : Nat) : BitSet :=
  ofWords extent (Array.replicate (Words.count extent) (~~~ 0)) Array.size_replicate

/-- The number of members. -/
def len (s : BitSet) : Nat := s.words.foldl (fun n w => n + Words.population w) 0

/-- Whether there is no member. -/
def isEmpty (s : BitSet) : Bool := s.words.all (· == 0)

/-- There is a word for each number of the universe. -/
theorem div_lt_size {words : Array UInt64} {extent i : Nat}
    (hsize : words.size = Words.count extent) (hi : i < extent) : i / 64 < words.size := by
  rw [hsize, Words.count]
  omega

/-- Adds `i`, and tells whether it was missing. -/
def insert (s : BitSet) (i : Nat) : Checked (Bool × BitSet) :=
  if hi : i < s.extent then
    .ok (!s.contains i,
      { words := Words.setBit s.words i
        extent := s.extent
        size_words := (Words.size_setBit s.words i).trans s.size_words
        bit_eq_false := fun j hj => by
          rw [Words.bit_setBit (div_lt_size s.size_words hi), decide_eq_false (by omega),
            Bool.false_or, s.bit_eq_false j hj] })
  else .error (.bitBeyondUniverse i s.extent)

/-- Removes `i`, and tells whether it was there. -/
def remove (s : BitSet) (i : Nat) : Bool × BitSet :=
  (s.contains i,
    { words := Words.clearBit s.words i
      extent := s.extent
      size_words := (Words.size_clearBit s.words i).trans s.size_words
      bit_eq_false := fun j hj => by
        rw [Words.bit_clearBit, s.bit_eq_false j hj, Bool.and_false] })

/-- Adds numbers in order up to the first that does not fit, which is the fault returned. -/
def extend (s : BitSet) : List Nat → BitSet × Option Fault
  | [] => (s, none)
  | i :: rest =>
    match s.insert i with
    | .ok (_, t) => t.extend rest
    | .error fault => (s, some fault)

/-- The members of the universe that are not in the set. -/
def complement (s : BitSet) : BitSet :=
  ofWords s.extent (s.words.map (~~~ ·)) (Array.size_map.trans s.size_words)

/-- The common members of two sets over one universe. -/
def intersection (s t : BitSet) : Checked BitSet :=
  if h : s.extent = t.extent then
    .ok
      { words := Array.zipWith (· &&& ·) s.words t.words
        extent := s.extent
        size_words := by
          rw [Array.size_zipWith, s.size_words, t.size_words, h, Nat.min_self]
        bit_eq_false := fun i hi => by
          rw [Words.bit_zipWith_and, s.bit_eq_false i hi, Bool.false_and] }
  else .error (.universesDiffer s.extent t.extent)

/-- The members of either of two sets over one universe. -/
def union (s t : BitSet) : Checked BitSet :=
  if h : s.extent = t.extent then
    .ok
      { words := Array.zipWith (· ||| ·) s.words t.words
        extent := s.extent
        size_words := by
          rw [Array.size_zipWith, s.size_words, t.size_words, h, Nat.min_self]
        bit_eq_false := fun i hi => by
          rw [Words.bit_zipWith_or (by rw [s.size_words, t.size_words, h]),
            s.bit_eq_false i hi, t.bit_eq_false i (h ▸ hi), Bool.false_or] }
  else .error (.universesDiffer s.extent t.extent)

/-- Whether two sets have a common member; their universes may differ. -/
def intersects (s t : BitSet) : Bool :=
  (Array.zipWith (· &&& ·) s.words t.words).any (· != 0)

end BitSet

end Automata
