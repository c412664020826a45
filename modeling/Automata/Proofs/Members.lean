import Automata.BitSet.Iterator

/-!
# Members of bit sets

A bit set is read through `BitSet.contains`: each operation has one lemma that says which members
its result has, and two sets over one universe with the same members are equal as data. The walk
through a set is read through the list of the members that are still to come
(`Iterator.remaining`): a request hands out the first of them and leaves the others
(`Iterator.requested_next`), so the walk lists exactly the members, in increasing order.
-/

namespace Automata

namespace Words

theorem holds_zero (k : Nat) : holds 0 k = false := by
  unfold holds
  rw [UInt64.zero_and]
  rfl

/-- A word that is not zero has a bit. -/
theorem ne_zero_iff {w : UInt64} : w ≠ 0 ↔ ∃ k, k < 64 ∧ holds w k = true := by
  constructor
  · intro hne
    refine Classical.byContradiction fun hnone => hne (eq_of_holds fun k hk => ?_)
    rw [holds_zero]
    exact Bool.eq_false_iff.mpr fun hhold => hnone ⟨k, hk, hhold⟩
  · rintro ⟨k, _, hhold⟩ rfl
    rw [holds_zero] at hhold
    cases hhold

/-- A bit of the words is a bit of the word it lies in. -/
theorem bit_eq_holds {words : Array UInt64} {j k : Nat} (hj : j < words.size) (hk : k < 64) :
    bit words (64 * j + k) = holds words[j] k := by
  have hdiv : (64 * j + k) / 64 = j := by omega
  have hmod : (64 * j + k) % 64 = k := by omega
  rw [bit, hdiv, hmod, Array.getElem?_eq_getElem hj]

/-- Words that are not all zero have a bit. -/
theorem any_ne_zero_iff (words : Array UInt64) :
    words.any (· != 0) = true ↔ ∃ i, bit words i = true := by
  rw [Array.any_eq_true]
  constructor
  · rintro ⟨j, hj, hne⟩
    obtain ⟨k, hk, hhold⟩ := ne_zero_iff.mp (bne_iff_ne.mp hne)
    exact ⟨64 * j + k, (bit_eq_holds hj hk).trans hhold⟩
  · rintro ⟨i, hbit⟩
    by_cases hi : i / 64 < words.size
    · have hsplit : 64 * (i / 64) + i % 64 = i := by omega
      rw [← hsplit, bit_eq_holds hi (mod_lt i)] at hbit
      exact ⟨i / 64, hi, bne_iff_ne.mpr (ne_zero_iff.mpr ⟨i % 64, mod_lt i, hbit⟩)⟩
    · rw [bit_eq_false_of_size_le (by omega)] at hbit
      cases hbit

/-- The bits of a word in increasing order. -/
def bits (w : UInt64) : List Nat := (List.range 64).filter (holds w)

/-- The lowest bit is the first of the bits in order. -/
theorem lowest?_eq_head? (w : UInt64) : lowest? w = (bits w).head? := List.head?_filter.symm

theorem mem_bits {w : UInt64} {k : Nat} : k ∈ bits w ↔ k < 64 ∧ holds w k = true := by
  rw [bits, List.mem_filter, List.mem_range]

/-- Clearing the lowest bit of a word leaves the other bits. -/
theorem bits_clear_lowest {w : UInt64} {k : Nat} {rest : List Nat} (h : bits w = k :: rest) :
    bits (w &&& ~~~ single k) = rest := by
  have hk : k < 64 := (mem_bits.1 (h ▸ List.mem_cons_self ..)).1
  have hnodup : (bits w).Nodup := List.Pairwise.filter _ List.nodup_range
  have hclear : bits (w &&& ~~~ single k) = (bits w).filter fun j => decide (k ≠ j) := by
    rw [bits, bits, List.filter_filter]
    refine List.filter_congr fun j hj => ?_
    have hj : j < 64 := List.mem_range.1 hj
    rw [holds_and _ _ hj, holds_not _ hj, holds_single hk hj, Bool.and_comm, decide_not]
  rw [h] at hnodup
  rw [hclear, h, List.filter_cons_of_neg (by simp), List.filter_eq_self]
  intro j hj
  rw [decide_eq_true_eq]
  rintro rfl
  exact (List.nodup_cons.1 hnodup).1 hj

/-- The numbers of the bits of consecutive words, the first of them being bit `base`. -/
def listed (base : Nat) : List UInt64 → List Nat
  | [] => []
  | w :: rest => (bits w).map (base + ·) ++ listed (base + 64) rest

/-- The first `64` bits are those of the first word, -/
theorem bit_toArray_cons_of_lt {w : UInt64} {rest : List UInt64} {i : Nat} (hi : i < 64) :
    bit (w :: rest).toArray i = holds w i := by
  have hdiv : i / 64 = 0 := Nat.div_eq_of_lt hi
  have hmod : i % 64 = i := Nat.mod_eq_of_lt hi
  rw [bit, hdiv, hmod, List.getElem?_toArray, List.getElem?_cons_zero]

/-- and the others those of the words behind it. -/
theorem bit_toArray_cons_add (w : UInt64) (rest : List UInt64) (i : Nat) :
    bit (w :: rest).toArray (64 + i) = bit rest.toArray i := by
  have hdiv : (64 + i) / 64 = i / 64 + 1 := by omega
  have hmod : (64 + i) % 64 = i % 64 := by omega
  rw [bit, bit, hdiv, hmod, List.getElem?_toArray, List.getElem?_toArray, List.getElem?_cons_succ]

/-- Going through the words one by one lists the same numbers as testing each bit. -/
theorem listed_eq_filter : ∀ (words : List UInt64) (base : Nat),
    listed base words =
      ((List.range (64 * words.length)).filter (bit words.toArray)).map (base + ·) := by
  intro words
  induction words with
  | nil => intro _; rfl
  | cons w rest ih =>
    intro base
    have hlen : 64 * (w :: rest).length = 64 + 64 * rest.length := by
      rw [List.length_cons]
      omega
    have hfirst : (List.range 64).filter (bit (w :: rest).toArray) = bits w :=
      List.filter_congr fun i hi => bit_toArray_cons_of_lt (List.mem_range.1 hi)
    -- past the first word the bits are those of the other words
    have hbit : bit (w :: rest).toArray ∘ (64 + ·) = bit rest.toArray :=
      funext fun i => bit_toArray_cons_add w rest i
    rw [listed, ih, hlen, List.range_add, List.filter_append, hfirst, List.filter_map, hbit,
      List.map_append, List.map_map]
    congr 2
    funext i
    exact Nat.add_assoc base 64 i

/-- Counting the bits word by word counts the listed numbers. -/
theorem foldl_population (base : Nat) : ∀ (words : List UInt64) (n : Nat),
    words.foldl (fun n w => n + population w) n = n + (listed base words).length := by
  intro words
  induction words generalizing base with
  | nil => intro n; rfl
  | cons w rest ih =>
    intro n
    have hw : population w = ((bits w).map (base + ·)).length := by
      rw [List.length_map, population, bits, List.countP_eq_length_filter]
    rw [List.foldl_cons, ih (base + 64), listed, List.length_append, hw, Nat.add_assoc]

end Words

namespace BitSet

/-! ## Operations -/

/-- Sets over one universe with the same members are equal. -/
theorem ext {s t : BitSet} (hextent : s.extent = t.extent)
    (h : ∀ i, i < s.extent → s.contains i = t.contains i) : s = t := by
  obtain ⟨u, n, hu, hzu⟩ := s
  obtain ⟨v, m, hv, hzv⟩ := t
  obtain rfl : n = m := hextent
  have hwords : u = v := by
    refine Array.ext (hu.trans hv.symm) fun j hju hjv => ?_
    -- word by word, and in a word bit by bit; bits past the universe are clear in both
    refine Words.eq_of_holds fun k hk => ?_
    rw [← Words.bit_eq_holds hju hk, ← Words.bit_eq_holds hjv hk]
    by_cases hlt : 64 * j + k < n
    · exact h _ hlt
    · rw [hzu _ (Nat.le_of_not_lt hlt), hzv _ (Nat.le_of_not_lt hlt)]
  subst hwords
  rfl

/-- Beyond the universe there are no members, which is what the cleared tail is for. -/
theorem contains_eq_false {s : BitSet} {i : Nat} (h : s.extent ≤ i) : s.contains i = false :=
  s.bit_eq_false i h

@[simp] theorem contains_empty (extent i : Nat) : (empty extent).contains i = false :=
  Words.bit_replicate_zero _ i

/-- Adding a number of the universe adds it and nothing else. -/
theorem insert_eq_ok {s : BitSet} {i : Nat} (h : i < s.extent) :
    ∃ t, s.insert i = .ok (!s.contains i, t) ∧ t.extent = s.extent ∧
      ∀ j, t.contains j = (decide (i = j) || s.contains j) := by
  refine ⟨_, dif_pos h, rfl, fun j => ?_⟩
  exact Words.bit_setBit (div_lt_size s.size_words h) j

/-- Within the universe a complement turns membership over. -/
theorem contains_complement {s : BitSet} {i : Nat} (h : i < s.extent) :
    s.complement.contains i = !s.contains i := by
  show Words.bit (Words.clearTail s.extent (s.words.map (~~~ ·))) i = _
  rw [Words.bit_clearTail (Array.size_map.trans s.size_words), decide_eq_true h, Bool.true_and]
  exact Words.bit_map_not (div_lt_size s.size_words h)

theorem contains_full {extent i : Nat} (h : i < extent) : (full extent).contains i = true := by
  have hword : i / 64 < (Array.replicate (Words.count extent) (~~~ 0 : UInt64)).size :=
    div_lt_size Array.size_replicate h
  show Words.bit (Words.clearTail extent (Array.replicate (Words.count extent) (~~~ 0))) i = _
  rw [Words.bit_clearTail Array.size_replicate, decide_eq_true h, Bool.true_and, Words.bit,
    Array.getElem?_eq_getElem hword, Array.getElem_replicate]
  show Words.holds (~~~ 0) (i % 64) = true
  rw [Words.holds_not _ (Words.mod_lt i), Words.holds_zero]
  rfl

/-- Removing a number removes it and nothing else. -/
theorem contains_remove (s : BitSet) (i j : Nat) :
    (s.remove i).2.contains j = (!decide (i = j) && s.contains j) :=
  Words.bit_clearBit s.words i j

/-- Adding numbers adds those before the first that does not fit, which is the fault. -/
theorem extend_eq : ∀ (items : List Nat) (s : BitSet),
    (s.extend items).2 = (items.find? (s.extent ≤ ·)).map (.bitBeyondUniverse · s.extent) ∧
      (s.extend items).1.extent = s.extent ∧ ∀ j, (s.extend items).1.contains j =
        (decide (j ∈ items.takeWhile (· < s.extent)) || s.contains j) := by
  intro items
  induction items with
  | nil =>
    intro s
    exact ⟨rfl, rfl, fun j => by simp [extend]⟩
  | cons i items ih =>
    intro s
    by_cases hi : i < s.extent
    · -- the number is taken, and the others are added to what this gives
      obtain ⟨t, hinsert, hextent, hcontains⟩ := insert_eq_ok hi
      obtain ⟨hfault, hext, hmem⟩ := ih t
      rw [hextent] at hfault hext hmem
      have hrest : s.extend (i :: items) = t.extend items := by rw [extend, hinsert]
      rw [hrest]
      refine ⟨?_, hext, fun j => ?_⟩
      · rw [hfault, List.find?_cons_of_neg (by simpa using hi)]
      · rw [hmem, hcontains, List.takeWhile_cons_of_pos (by simpa using hi)]
        simp only [List.mem_cons, Bool.decide_or, eq_comm (a := j)]
        rw [Bool.or_left_comm, Bool.or_assoc]
    · -- the first number that is refused ends it all
      have hinsert : s.insert i = .error (.bitBeyondUniverse i s.extent) := dif_neg hi
      have hstop : s.extend (i :: items) = (s, some (.bitBeyondUniverse i s.extent)) := by
        rw [extend, hinsert]
      rw [hstop]
      refine ⟨?_, rfl, fun j => ?_⟩
      · rw [List.find?_cons_of_pos (by simpa using hi), Option.map_some]
      · rw [List.takeWhile_cons_of_neg (by simpa using hi)]
        simp

/-- Sets over one universe have a union, and its members are those of either set. -/
theorem union_eq_ok {s t : BitSet} (h : s.extent = t.extent) :
    ∃ u, s.union t = .ok u ∧ u.extent = s.extent ∧
      ∀ i, u.contains i = (s.contains i || t.contains i) := by
  refine ⟨_, dif_pos h, rfl, fun i => ?_⟩
  exact Words.bit_zipWith_or (by rw [s.size_words, t.size_words, h]) i

/-- Sets over one universe have an intersection, and its members are those of both sets. -/
theorem intersection_eq_ok {s t : BitSet} (h : s.extent = t.extent) :
    ∃ u, s.intersection t = .ok u ∧ u.extent = s.extent ∧
      ∀ i, u.contains i = (s.contains i && t.contains i) :=
  ⟨_, dif_pos h, rfl, Words.bit_zipWith_and s.words t.words⟩

/-- Two sets intersect when they have a common member, whatever their universes are: beyond the
words of the shorter set there is none. -/
theorem intersects_iff {s t : BitSet} :
    s.intersects t = true ↔ ∃ i, s.contains i = true ∧ t.contains i = true := by
  rw [intersects, Words.any_ne_zero_iff]
  refine exists_congr fun i => ?_
  rw [Words.bit_zipWith_and, Bool.and_eq_true]
  exact Iff.rfl

theorem isEmpty_iff {s : BitSet} : s.isEmpty = true ↔ ∀ i, s.contains i = false := by
  have hany : s.isEmpty = !s.words.any (· != 0) := by
    rw [isEmpty, Array.all_eq_not_any_not]
    rfl
  rw [hany, Bool.not_eq_true', Bool.eq_false_iff, Ne, Words.any_ne_zero_iff, not_exists]
  exact forall_congr' fun i => Bool.eq_false_iff.symm

/-! ## All members -/

/-- The bits of the words are the members, in increasing order. -/
theorem listed_words (s : BitSet) :
    Words.listed 0 s.words.toList = (List.range s.extent).filter s.contains := by
  have hlen : 64 * s.words.toList.length =
      s.extent + (64 * Words.count s.extent - s.extent) := by
    rw [Array.length_toList, s.size_words, Words.count]
    omega
  -- the last word may have room for more than the universe, but no bit is set there
  have htail : (List.range (64 * Words.count s.extent - s.extent)).filter
      (s.contains ∘ (s.extent + ·)) = [] := by
    rw [List.filter_eq_nil_iff]
    intro i _
    rw [Function.comp_apply, contains_eq_false (Nat.le_add_right _ i)]
    simp
  rw [Words.listed_eq_filter, hlen, List.range_add, List.filter_append, List.filter_map]
  show List.map _ (List.filter s.contains _ ++
    List.map _ (List.filter (s.contains ∘ (s.extent + ·)) _)) = _
  rw [htail, List.map_nil, List.append_nil]
  simp

/-- The number of members is that of the bits of the words. -/
theorem len_eq (s : BitSet) : s.len = ((List.range s.extent).filter s.contains).length := by
  rw [← listed_words, len, ← Array.foldl_toList, Words.foldl_population 0, Nat.zero_add]

/-! ## The walk -/

namespace Iterator

/-- The members that are still to come. -/
def remaining (it : Iterator) : List Nat := Words.listed (64 * it.word) (it.pending :: it.rest)

/-- The number of the last word, or beyond it the number that the walk has come to. -/
def last (it : Iterator) : Nat := it.word + it.rest.length

/-- What a request answers and which position it leaves. The first of the members that remain is
handed out; once none remains, the answer is that there is none, as long as there is a number for
one more word; and then every request is a fault. -/
inductive Requested (it : Iterator) : Checked (Option Nat) × Iterator → Prop where
  | member {i : Nat} {others : List Nat} {it' : Iterator} : it.remaining = i :: others →
    it'.remaining = others → it'.last = it.last → Requested it (.ok (some i), it')
  | nothing {it' : Iterator} : it.remaining = [] → it.last + 1 < indexLimit →
    it'.remaining = [] → it'.last = it.last + 1 → Requested it (.ok none, it')
  | fault {it' : Iterator} : it.remaining = [] → indexLimit ≤ it.last + 1 →
    it'.remaining = [] → it'.last = it.last → Requested it (.error .addOverflow, it')

/-- Positions with the same members to come and the same last word answer alike. -/
theorem Requested.congr {it₁ it₂ : Iterator} {x : Checked (Option Nat) × Iterator}
    (h : Requested it₂ x) (hremaining : it₁.remaining = it₂.remaining)
    (hlast : it₁.last = it₂.last) : Requested it₁ x := by
  cases h with
  | member h h' hl => exact .member (hremaining.trans h) h' (hl.trans hlast.symm)
  | nothing h hlt h' hl =>
    exact .nothing (hremaining.trans h) (hlast ▸ hlt) h' (hl.trans (congrArg (· + 1) hlast.symm))
  | fault h hle h' hl =>
    exact .fault (hremaining.trans h) (hlast ▸ hle) h' (hl.trans hlast.symm)

theorem advance_of_bits_cons {pending : UInt64} {k : Nat} {others : List Nat}
    (h : Words.bits pending = k :: others) (word : Nat) (rest : List UInt64) :
    advance pending word rest =
      (.ok (some (64 * word + k)), ⟨pending &&& ~~~ Words.single k, word, rest⟩) := by
  have hlow : Words.lowest? pending = some k := by rw [Words.lowest?_eq_head?, h, List.head?_cons]
  cases rest <;> rw [advance, hlow]

/-- A word with pending bits is answered from. -/
theorem requested_of_bits_cons {pending : UInt64} {k : Nat} {others : List Nat}
    (h : Words.bits pending = k :: others) (word : Nat) (rest : List UInt64) :
    Requested ⟨pending, word, rest⟩ (advance pending word rest) := by
  rw [advance_of_bits_cons h]
  refine .member ?_ rfl rfl
  simp [remaining, Words.listed, h, Words.bits_clear_lowest h]

/-- Behind an empty word there remain the bits of the words that follow. -/
theorem remaining_of_bits_nil {pending : UInt64} (h : Words.bits pending = []) (word : Nat)
    (rest : List UInt64) :
    (Iterator.mk pending word rest).remaining = Words.listed (64 * word + 64) rest := by
  rw [remaining, Words.listed, h, List.map_nil, List.nil_append]

/-- The induction is on the words that follow, as the request goes over the empty ones. -/
theorem requested_advance : ∀ (rest : List UInt64) (pending : UInt64) (word : Nat),
    Requested ⟨pending, word, rest⟩ (advance pending word rest) := by
  intro rest
  induction rest with
  | nil =>
    intro pending word
    cases hbits : Words.bits pending with
    | cons k others => exact requested_of_bits_cons hbits word []
    | nil =>
      have hlow : Words.lowest? pending = none := by rw [Words.lowest?_eq_head?, hbits]; rfl
      have hnone : ∀ word, (Iterator.mk pending word []).remaining = [] := fun word =>
        remaining_of_bits_nil hbits word []
      rw [advance, hlow, addIndex]
      by_cases hlt : word + 1 < indexLimit
      · rw [if_pos hlt]
        exact .nothing (hnone word) hlt (hnone (word + 1)) rfl
      · rw [if_neg hlt]
        exact .fault (hnone word) (Nat.not_lt.mp hlt) (hnone word) rfl
  | cons w rest ih =>
    intro pending word
    cases hbits : Words.bits pending with
    | cons k others => exact requested_of_bits_cons hbits word (w :: rest)
    | nil =>
      have hlow : Words.lowest? pending = none := by rw [Words.lowest?_eq_head?, hbits]; rfl
      rw [advance, hlow]
      -- an empty word is passed over
      refine (ih w (word + 1)).congr (remaining_of_bits_nil hbits word (w :: rest)) ?_
      show word + (rest.length + 1) = word + 1 + rest.length
      rw [Nat.add_right_comm, Nat.add_assoc]

/-- Whatever a request answers is answered in one of the three ways. -/
theorem requested_next (it : Iterator) : Requested it it.next :=
  requested_advance it.rest it.pending it.word

/-- Draining takes members from the front of those that remain. -/
theorem drain_eq_take : ∀ (n : Nat) (it : Iterator), it.drain n = it.remaining.take n := by
  intro n
  induction n with
  | zero => intro _; rfl
  | succ n ih =>
    intro it
    have hnext := requested_next it
    rw [drain]
    generalize it.next = answered at hnext
    cases hnext with
    | member h h' _ => rw [h, List.take_succ_cons, ← h', ← ih]
    | nothing h _ _ _ => rw [h, List.take_nil]
    | fault h _ _ _ => rw [h, List.take_nil]

end Iterator

/-- At the start all members remain. -/
theorem remaining_iterator (s : BitSet) :
    s.iterator.remaining = (List.range s.extent).filter s.contains := by
  rw [← listed_words, iterator]
  split
  next h => rw [h]; decide
  next w rest h => rw [h]; rfl

/-- The members are listed in increasing order. -/
theorem toList_eq (s : BitSet) : s.toList = (List.range s.extent).filter s.contains := by
  have hlen : s.iterator.remaining.length ≤ s.extent := by
    rw [remaining_iterator]
    exact Nat.le_trans (List.length_filter_le ..) (Nat.le_of_eq List.length_range)
  rw [toList, Iterator.drain_eq_take, List.take_of_length_le hlen, remaining_iterator]

end BitSet

end Automata
