import Automata.Proofs.Members

/-!
# Walks through a bit set

A request for the next member looks at the pending bits of the current word. If there are any, it
answers with the number of trailing zeros and clears the lowest bit by `w &&& (w - 1)`; if there are
none, it looks at the next word, and an answer that there is no member left is given only behind the
last one. `Iterator.look` is one such look, in the arithmetic of words, and `lookFor_eq_next` ties a
sequence of looks to a request: the looks come to the answer of the request, after no more of them
than there are words to look at.

What a whole walk answers then rests on two numbers that go down. Each request takes the first of
the members that remain (`remaining_after`), whatever words they are spread over, and one of the
requests that are answered at all (`requests_after`): behind the last word each of them needs an
index for one more word, and indices run out.

> `iterator_lists_members`: a fresh walk hands out the members in increasing order and nothing but
> them, then answers that there is none until there is no index left.
-/

namespace Automata

/-! ## The places of a list -/

/-- Looking up the first `n` places of a list finds its first members and nothing beyond its end. -/
theorem map_getElem?_range {α : Type} (l : List α) (n : Nat) :
    (List.range n).map (l[·]?) = (l.take n).map some ++ List.replicate (n - l.length) none := by
  refine List.ext_getElem? fun k => ?_
  rw [List.getElem?_map, List.getElem?_append, List.getElem?_map, List.length_map,
    List.length_take, List.getElem?_take, List.getElem?_replicate]
  by_cases hn : k < n
  · rw [List.getElem?_range hn, Option.map_some, if_pos hn]
    by_cases hl : k < l.length
    · rw [if_pos (by omega), List.getElem?_eq_getElem hl]
      rfl
    · rw [if_neg (by omega), if_pos (by omega), List.getElem?_eq_none (Nat.not_lt.mp hl)]
  · rw [List.getElem?_eq_none (by rw [List.length_range]; omega), if_neg (by omega),
      if_neg (by omega)]
    rfl

/-! ## The lowest bit of a word -/

namespace Words

/-- The lowest bit is held and none below it is. -/
theorem lowest?_eq_some {w : UInt64} {k : Nat} :
    lowest? w = some k ↔ k < 64 ∧ holds w k = true ∧ ∀ j, j < k → holds w j = false := by
  rw [lowest?, List.find?_range_eq_some, List.mem_range]
  simp only [Bool.not_eq_true']
  exact ⟨fun h => ⟨h.2.1, h.1, h.2.2⟩, fun h => ⟨h.2.1, h.1, h.2.2⟩⟩

theorem lowest?_eq_none {w : UInt64} : lowest? w = none ↔ w = 0 := by
  rw [lowest?, List.find?_eq_none]
  constructor
  · intro hnone
    refine eq_of_holds fun k hk => ?_
    rw [holds_zero, ← Bool.not_eq_true]
    exact hnone k (List.mem_range.mpr hk)
  · rintro rfl k _
    rw [holds_zero]
    exact Bool.false_ne_true

/-- The lowest bit of a word stands behind its trailing zeros. -/
theorem lowest?_eq_ctz {w : UInt64} (h : w ≠ 0) : lowest? w = some w.toBitVec.ctz.toNat := by
  have hne : w.toBitVec ≠ 0#64 := fun heq => h (UInt64.toBitVec_inj.mp heq)
  have hlt : w.toBitVec.ctz.toNat < 64 := by
    have hctz := BitVec.ctz_lt_iff_ne_zero.mpr hne
    rw [BitVec.lt_def] at hctz
    exact hctz
  have hholds : ∀ j, j < 64 → holds w j = w.toBitVec.getLsbD j := fun j hj => by
    rw [holds_eq_testBit w hj]
    rfl
  refine lowest?_eq_some.mpr ⟨hlt, ?_, fun j hj => ?_⟩
  · rw [hholds _ hlt]
    exact BitVec.getLsbD_true_ctz_of_ne_zero hne
  · rw [hholds _ (Nat.lt_trans hj hlt)]
    exact BitVec.getLsbD_false_of_lt_ctz hj

/-- Subtracting one turns the lowest bit off and the zeros below it on. -/
theorem holds_sub_one {w : UInt64} {k j : Nat} (h : lowest? w = some k) (hj : j < 64) :
    holds (w - 1) j = (decide (j < k) || (decide (j ≠ k) && holds w j)) := by
  obtain ⟨hk, hbit, hzeros⟩ := lowest?_eq_some.mp h
  have hpow : 2 ^ k < 2 ^ (k + 1) := Nat.pow_lt_pow_right (by omega) (by omega)
  have hone : 1 ≤ 2 ^ k := Nat.one_le_two_pow
  -- up to its lowest bit the word is a power of two
  have hmod : w.toNat % 2 ^ (k + 1) = 2 ^ k := by
    refine Nat.eq_of_testBit_eq fun i => ?_
    rw [Nat.testBit_mod_two_pow, Nat.testBit_two_pow]
    rcases Nat.lt_trichotomy i k with hlt | rfl | hgt
    · rw [← holds_eq_testBit w (by omega), hzeros i hlt, Bool.and_false,
        decide_eq_false (by omega)]
    · rw [← holds_eq_testBit w hk, hbit, decide_eq_true (Nat.lt_succ_self i), decide_eq_true rfl]
      rfl
    · rw [decide_eq_false (by omega), decide_eq_false (by omega), Bool.false_and]
  have hword : w.toNat = 2 ^ (k + 1) * (w.toNat / 2 ^ (k + 1)) + 2 ^ k := by
    rw [← hmod]
    exact (Nat.div_add_mod ..).symm
  have hpred : (w - 1).toNat = 2 ^ (k + 1) * (w.toNat / 2 ^ (k + 1)) + (2 ^ k - 1) := by
    have hle : (1 : UInt64) ≤ w := by
      rw [UInt64.le_iff_toNat_le, hword]
      exact Nat.le_trans hone (Nat.le_add_left ..)
    rw [UInt64.toNat_sub_of_le _ _ hle]
    show w.toNat - 1 = _
    omega
  rw [holds_eq_testBit _ hj, holds_eq_testBit _ hj, hpred,
    Nat.testBit_two_pow_mul_add _ (by omega)]
  by_cases hlow : j < k + 1
  · rw [if_pos hlow, Nat.testBit_two_pow_sub_one]
    by_cases hjk : j = k
    · rw [decide_eq_false (by omega : ¬j < k), decide_eq_false (not_not_intro hjk)]
      rfl
    · rw [decide_eq_true (by omega : j < k)]
      rfl
  · have hsame : w.toNat.testBit j = (w.toNat / 2 ^ (k + 1)).testBit (j - (k + 1)) := by
      conv => lhs; rw [hword]
      rw [Nat.testBit_two_pow_mul_add _ hpow, if_neg hlow]
    rw [if_neg hlow, hsame, decide_eq_false (by omega : ¬j < k),
      decide_eq_true (by omega : j ≠ k), Bool.false_or, Bool.true_and]

/-- To clear the lowest bit of a word, it need not be known which one it is. -/
theorem and_sub_one {w : UInt64} {k : Nat} (h : lowest? w = some k) :
    w &&& (w - 1) = w &&& ~~~ single k := by
  obtain ⟨hk, _, hzeros⟩ := lowest?_eq_some.mp h
  refine eq_of_holds fun j hj => ?_
  rw [holds_and _ _ hj, holds_and _ _ hj, holds_sub_one h hj, holds_not _ hj, holds_single hk hj]
  by_cases hlt : j < k
  · rw [hzeros j hlt, Bool.false_and, Bool.false_and]
  · rw [decide_eq_false hlt, Bool.false_or, ← decide_not]
    cases holds w j with
    | false => rfl
    | true => simp only [Bool.true_and, Bool.and_true, ne_eq, eq_comm]

end Words

namespace BitSet

namespace Iterator

/-! ## Looks -/

/-- What comes of a look at a position: the answer to a request and the position behind it, or the
position at which the next word begins. -/
inductive Look where
  | answered (answer : Checked (Option Nat)) (it : Iterator)
  | passed (it : Iterator)

/-- Looks at the pending bits. -/
def look (it : Iterator) : Look :=
  if it.pending = 0 then
    match it.rest with
    | w :: rest => .passed ⟨w, it.word + 1, rest⟩
    | [] =>
      match addIndex it.word 1 with
      | .ok beyond => .answered (.ok none) ⟨it.pending, beyond, []⟩
      | .error fault => .answered (.error fault) it
  else
    .answered (.ok (some (64 * it.word + it.pending.toBitVec.ctz.toNat)))
      ⟨it.pending &&& (it.pending - 1), it.word, it.rest⟩

/-- Looks at one word after the other until there is an answer, at most `n` times. -/
def lookFor : Nat → Iterator → Option (Checked (Option Nat) × Iterator)
  | 0, _ => none
  | n + 1, it =>
    match it.look with
    | .answered answer it' => some (answer, it')
    | .passed it' => lookFor n it'

/-- A word with pending bits is answered from at once. -/
theorem look_of_ne_zero {it : Iterator} (h : it.pending ≠ 0) :
    it.look = .answered it.next.1 it.next.2 := by
  obtain ⟨pending, word, rest⟩ := it
  have hlow := Words.lowest?_eq_ctz h
  have hnext : (Iterator.mk pending word rest).next =
      (.ok (some (64 * word + pending.toBitVec.ctz.toNat)),
        ⟨pending &&& ~~~ Words.single pending.toBitVec.ctz.toNat, word, rest⟩) := by
    show advance pending word rest = _
    cases rest <;> rw [advance, hlow]
  rw [hnext, look, if_neg h, Words.and_sub_one hlow]

/-- Behind the last word the answer needs a number for one more word. -/
theorem look_of_last {it : Iterator} (h : it.pending = 0) (hrest : it.rest = []) :
    it.look = .answered it.next.1 it.next.2 := by
  obtain ⟨pending, word, rest⟩ := it
  obtain rfl : pending = 0 := h
  obtain rfl : rest = [] := hrest
  have hlow : Words.lowest? 0 = none := Words.lowest?_eq_none.mpr rfl
  show look ⟨0, word, []⟩ = .answered (advance 0 word []).1 (advance 0 word []).2
  rw [advance, hlow, look, if_pos rfl]
  cases addIndex word 1 <;> rfl

/-- Passing over an empty word does not change what is answered. -/
theorem look_of_empty {it : Iterator} {w : UInt64} {rest : List UInt64} (h : it.pending = 0)
    (hrest : it.rest = w :: rest) :
    it.look = .passed ⟨w, it.word + 1, rest⟩ ∧
      it.next = (Iterator.mk w (it.word + 1) rest).next := by
  have hlow : Words.lowest? it.pending = none := Words.lowest?_eq_none.mpr h
  constructor
  · rw [look, if_pos h, hrest]
  · show advance it.pending it.word it.rest = advance w (it.word + 1) rest
    rw [hrest, advance, hlow]

/-- **A request ends.** Looking at one word after the other comes to the answer of a request, at the
latest with the last word. -/
theorem lookFor_eq_next : ∀ (n : Nat) (it : Iterator), it.rest.length < n →
    it.lookFor n = some it.next := by
  intro n
  induction n with
  | zero => intro it h; exact absurd h (Nat.not_lt_zero _)
  | succ n ih =>
    intro it h
    rw [lookFor]
    by_cases hpending : it.pending = 0
    · cases hrest : it.rest with
      | nil => rw [look_of_last hpending hrest]
      | cons w rest =>
        obtain ⟨hlook, hnext⟩ := look_of_empty hpending hrest
        rw [hlook, hnext]
        refine ih ⟨w, it.word + 1, rest⟩ ?_
        rw [hrest, List.length_cons] at h
        exact Nat.lt_of_succ_lt_succ h
    · rw [look_of_ne_zero hpending]

/-- A request passes over words and comes back to none of them. -/
theorem length_rest_advance : ∀ (rest : List UInt64) (pending : UInt64) (word : Nat),
    (advance pending word rest).2.rest.length ≤ rest.length := by
  intro rest
  induction rest with
  | nil =>
    intro pending word
    rw [advance]
    cases Words.lowest? pending with
    | some k => exact Nat.le_refl _
    | none => cases addIndex word 1 <;> exact Nat.le_refl _
  | cons w rest ih =>
    intro pending word
    rw [advance]
    cases Words.lowest? pending with
    | some k => exact Nat.le_refl _
    | none => exact Nat.le_succ_of_le (ih w (word + 1))

/-! ## Requests -/

/-- How many requests are answered: one with each member that remains, and then one with nothing for
each index that is left for a word beyond the last. -/
def requests (it : Iterator) : Nat := it.remaining.length + (indexLimit - 1 - it.last)

/-- A request is answered with the first member that remains, or with nothing, as long as requests
are answered at all. -/
theorem next_fst (it : Iterator) : it.next.1 =
    if 0 < it.requests then .ok it.remaining.head? else .error .addOverflow := by
  have hnext := requested_next it
  generalize it.next = answered at hnext
  unfold requests
  cases hnext with
  | member h _ _ => rw [h, if_pos (by rw [List.length_cons]; omega)]; rfl
  | nothing h hlt _ _ => rw [h, if_pos (by omega)]; rfl
  | fault h hle _ _ => rw [h, if_neg (by rw [List.length_nil]; omega)]

/-- What a request answers with does not remain, and everything else does. -/
theorem remaining_next (it : Iterator) : it.next.2.remaining = it.remaining.tail := by
  have hnext := requested_next it
  generalize it.next = answered at hnext
  cases hnext with
  | member h h' _ => rw [h, h', List.tail_cons]
  | nothing h _ h' _ => rw [h, h', List.tail_nil]
  | fault h _ h' _ => rw [h, h', List.tail_nil]

/-- Each request uses up one of those that are answered. -/
theorem requests_next (it : Iterator) : it.next.2.requests = it.requests - 1 := by
  have hnext := requested_next it
  generalize it.next = answered at hnext
  unfold requests
  cases hnext with
  | member h h' hlast => rw [h, h', hlast, List.length_cons]; omega
  | nothing h hlt h' hlast => rw [h, h', hlast, List.length_nil]; omega
  | fault h hle h' hlast => rw [h, h', hlast, List.length_nil]; omega

/-- The position after `n` requests. -/
def after : Nat → Iterator → Iterator
  | 0, it => it
  | n + 1, it => after n it.next.2

/-- Each request takes one of the members that remain, as long as there are any. -/
theorem remaining_after : ∀ (n : Nat) (it : Iterator),
    (it.after n).remaining = it.remaining.drop n := by
  intro n
  induction n with
  | zero => intro it; rfl
  | succ n ih =>
    intro it
    rw [after, ih, remaining_next, List.drop_tail]

/-- So `n` requests leave `n` fewer that will be answered. -/
theorem requests_after : ∀ (n : Nat) (it : Iterator),
    (it.after n).requests = it.requests - n := by
  intro n
  induction n with
  | zero => intro it; rfl
  | succ n ih =>
    intro it
    rw [after, ih, requests_next, Nat.sub_sub, Nat.add_comm]

/-- **What each request is answered with.** The members that remain are handed out in order, then
nothing is handed out as often as there are numbers for words, and from then on every request is a
fault. -/
theorem next_after (n : Nat) (it : Iterator) : (it.after n).next.1 =
    if n < it.requests then .ok it.remaining[n]? else .error .addOverflow := by
  rw [next_fst, remaining_after, requests_after, List.head?_drop]
  simp only [Nat.sub_pos_iff_lt]

/-- The answers to requests, place by place, up to the first request that is not answered. -/
theorem take_eq_map : ∀ (n : Nat) (it : Iterator),
    it.take n = (List.range (min n it.requests)).map (it.remaining[·]?) := by
  intro n
  induction n with
  | zero => intro it; rw [take, Nat.zero_min]; rfl
  | succ n ih =>
    intro it
    have hfst := next_fst it
    have hremaining := remaining_next it
    have hrequests := requests_next it
    rw [take]
    generalize it.next = answered at hfst hremaining hrequests
    obtain ⟨answer, it'⟩ := answered
    by_cases hpos : 0 < it.requests
    · obtain rfl : answer = .ok it.remaining.head? := hfst.trans (if_pos hpos)
      -- one request is answered, and the others from where it leads
      have hmin : min (n + 1) it.requests = min n it'.requests + 1 := by
        rw [show it'.requests = it.requests - 1 from hrequests]
        omega
      rw [hmin, List.range_succ_eq_map, List.map_cons, List.map_map, List.head?_eq_getElem?]
      show it.remaining[0]? :: it'.take n = _
      rw [ih, show it'.remaining = it.remaining.tail from hremaining]
      refine congrArg (_ :: ·) (List.map_congr_left fun k _ => ?_)
      exact List.getElem?_tail
    · obtain rfl : answer = .error .addOverflow := hfst.trans (if_neg hpos)
      -- no request is answered any more
      rw [Nat.eq_zero_of_not_pos hpos, Nat.min_zero]
      rfl

/-- There are no more answers than requests that are answered. -/
theorem length_take (n : Nat) (it : Iterator) : (it.take n).length = min n it.requests := by
  rw [take_eq_map, List.length_map, List.length_range]

/-- The answers to requests are the members that remain, and nothing once they have run out. -/
theorem take_eq (n : Nat) (it : Iterator) (h : n ≤ it.requests) : it.take n =
    (it.remaining.take n).map some ++ List.replicate (n - it.remaining.length) none := by
  rw [take_eq_map, Nat.min_eq_left h, map_getElem?_range]

/-- No request brings back a word. -/
theorem length_rest_after : ∀ (n : Nat) (it : Iterator),
    (it.after n).rest.length ≤ it.rest.length := by
  intro n
  induction n with
  | zero => intro it; exact Nat.le_refl _
  | succ n ih =>
    intro it
    exact Nat.le_trans (ih it.next.2) (length_rest_advance it.rest it.pending it.word)

end Iterator

/-! ## A fresh walk -/

/-- How many requests a fresh walk answers: one with each member, and then one with nothing for each
index that is left beyond the words. A walk has come to the first word when it begins, whether there
is one or not. -/
def requests (s : BitSet) : Nat := s.toList.length + (indexLimit - max 1 s.words.size)

theorem length_rest_iterator (s : BitSet) : s.iterator.rest.length ≤ s.words.size := by
  rw [iterator, ← Array.length_toList]
  cases s.words.toList with
  | nil => exact Nat.le_refl _
  | cons w rest => exact Nat.le_succ _

/-- A walk begins at word `0`, so its last word is that of the set, or word `0` where there is none.
-/
theorem last_iterator (s : BitSet) : s.iterator.last = max 1 s.words.size - 1 := by
  rw [iterator, ← Array.length_toList]
  cases s.words.toList with
  | nil => rfl
  | cons w rest =>
    show 0 + rest.length = max 1 (rest.length + 1) - 1
    omega

theorem remaining_iterator_eq_toList (s : BitSet) : s.iterator.remaining = s.toList := by
  rw [remaining_iterator, toList_eq]

/-- A fresh walk answers as many requests as the set says. -/
theorem requests_iterator (s : BitSet) : s.iterator.requests = s.requests := by
  have hone : 1 ≤ max 1 s.words.size := Nat.le_max_left _ _
  rw [Iterator.requests, requests, remaining_iterator_eq_toList, last_iterator]
  omega

theorem mem_toList {s : BitSet} {i : Nat} : i ∈ s.toList ↔ s.contains i = true := by
  rw [toList_eq, List.mem_filter, List.mem_range]
  refine and_iff_right_of_imp fun hi => Nat.lt_of_not_le fun hle => ?_
  rw [contains_eq_false hle] at hi
  cases hi

theorem pairwise_toList (s : BitSet) : s.toList.Pairwise (· < ·) := by
  rw [toList_eq]
  exact List.pairwise_lt_range.filter _

/-- **A walk lists the members.** There is one list of the members of a set in increasing order. The
answers to the requests of a fresh walk are the first numbers of this list, and nothing from its end
on; after an answer that there is none no other answer comes. This holds for as many requests as
`requests` says, and all requests beyond them are faults. Each request ends after no more looks than
there are words, and one. -/
theorem iterator_lists_members (s : BitSet) :
    s.toList.Pairwise (· < ·) ∧ (∀ i, i ∈ s.toList ↔ s.contains i = true) ∧
    (∀ n, n ≤ s.requests → s.iterator.take n =
      (s.toList.take n).map some ++ List.replicate (n - s.toList.length) none) ∧
    (∀ m n, m ≤ n → n < s.requests → (s.iterator.after m).next.1 = .ok none →
      (s.iterator.after n).next.1 = .ok none) ∧
    (∀ n, s.requests ≤ n → (s.iterator.after n).next.1 = .error .addOverflow) ∧
    ∀ n, (s.iterator.after n).lookFor (s.words.size + 1) = some (s.iterator.after n).next := by
  have hnext : ∀ n, (s.iterator.after n).next.1 =
      if n < s.requests then .ok s.toList[n]? else .error .addOverflow := fun n => by
    rw [Iterator.next_after, requests_iterator, remaining_iterator_eq_toList]
  refine ⟨pairwise_toList s, fun i => mem_toList, fun n hn => ?_, fun m n hmn hn hnone => ?_,
    fun n hn => ?_, fun n => ?_⟩
  · rw [Iterator.take_eq n _ (by rwa [requests_iterator]), remaining_iterator_eq_toList]
  · rw [hnext, if_pos (Nat.lt_of_le_of_lt hmn hn), Except.ok.injEq] at hnone
    rw [hnext, if_pos hn, List.getElem?_eq_none]
    exact Nat.le_trans (List.getElem?_eq_none_iff.mp hnone) hmn
  · rw [hnext, if_neg (Nat.not_lt.mpr hn)]
  · refine Iterator.lookFor_eq_next _ _ (Nat.lt_succ_of_le ?_)
    exact Nat.le_trans (Iterator.length_rest_after n s.iterator) (length_rest_iterator s)

/-- Four numbers below `300`, which takes up five words, two of them empty. -/
def farApart : BitSet := ((empty 300).extend [299, 64, 0, 63]).1

/-- The third request crosses into the second word, and the fourth passes over two empty words. From
the fifth on nothing is left, and when the last index has been used up a request is a fault. -/
theorem iterator_lists_members_farApart :
    farApart.requests = 18446744073709551615 ∧
      farApart.iterator.take 6 = [some 0, some 63, some 64, some 299, none, none] ∧
      (farApart.iterator.after 100).next.1 = .ok none ∧
      (farApart.iterator.after 18446744073709551615).next.1 = .error .addOverflow := by
  obtain ⟨_, _, htake, hfused, hfault, _⟩ := iterator_lists_members farApart
  have hlist : farApart.toList = [0, 63, 64, 299] := by decide +kernel
  have hrequests : farApart.requests = 18446744073709551615 := by decide +kernel
  have hnone : (farApart.iterator.after 4).next.1 = .ok none := by
    rw [Iterator.next_after, requests_iterator, remaining_iterator_eq_toList, hrequests, hlist]
    rfl
  refine ⟨hrequests, ?_, hfused 4 100 (by decide) (by rw [hrequests]; decide) hnone,
    hfault _ (Nat.le_of_eq hrequests)⟩
  rw [htake 6 (by rw [hrequests]; decide), hlist]
  rfl

/-- A walk through a set without members, of two words, answers all requests but the last of
`18446744073709551615`. -/
theorem iterator_take_stopsShort :
    ((empty 65).iterator.after 18446744073709551614).next.1 = .error .addOverflow ∧
      (empty 65).iterator.take 18446744073709551615 ≠
        ((empty 65).toList.take 18446744073709551615).map some ++
          List.replicate (18446744073709551615 - (empty 65).toList.length) none := by
  have hrequests : (empty 65).iterator.requests = 18446744073709551614 := by
    rw [requests_iterator]
    decide +kernel
  constructor
  · rw [Iterator.next_after, hrequests, if_neg (Nat.lt_irrefl _)]
  · intro heq
    -- the list on the right is one answer longer
    have hlength := congrArg List.length heq
    rw [Iterator.length_take, hrequests, List.length_append, List.length_map, List.length_take,
      List.length_replicate] at hlength
    omega

end BitSet

end Automata
