import Mathlib.Algebra.Ring.Parity
import Automata.Demo
import Automata.Proofs.Arguments
import Automata.Proofs.Batches
import Automata.Proofs.Remainders
import Automata.Proofs.Transcripts

/-!
# The words that a batch recognizes

The program runs one automaton on all words: the intersection of one that keeps the remainder by
three and one that keeps the parity of the ones, with its successors in a table. Neither the pairs
nor the table show in what is accepted (`recognizer_eq_ok`), and neither the settings nor the way in
which the batch is cut show in the answers (`Automaton.batch_outcome`). So each word has the answer
that arithmetic gives.

All words are read before the first answer is printed, front to back, each from its first character
on. So a wrong character leaves no answer at all, and the one that is reported is the first wrong
one of the first word that has any (`words_eq_error`).

> `recognizes_words`: if a word has a wrong character the program reports the first one and prints
> no answer, and otherwise it answers the words in order and says how many answers were positive.

That all words can be asked about on a command line is shown at the end (`perform_batch`).
-/

namespace Automata.Demo.Batch

open Automaton Numeral
open CommandLine (Command Reading number?)

/-! ## What is asked -/

/-- The character stands for a bit. -/
def IsBit (c : Char) : Prop := c = '0' ∨ c = '1'

/-- The text is written in bits. -/
def IsNumeral (text : String) : Prop := ∀ c ∈ text.toList, IsBit c

/-- The bits that a text is written in. -/
def bits (text : String) : List Bool := text.toList.map (· == '1')

/-- The number that the text stands for is divisible by three, and the text has an odd number of
ones. -/
def Recognized (text : String) : Prop := 3 ∣ value (bits text) ∧ Odd (text.toList.count '1')

instance : DecidablePred IsBit := fun c => inferInstanceAs (Decidable (c = '0' ∨ c = '1'))

instance : DecidablePred IsNumeral := fun text =>
  (List.decidableBAll _ text.toList : Decidable (∀ c ∈ text.toList, IsBit c))

instance : DecidablePred Recognized := fun text =>
  inferInstanceAs (Decidable (3 ∣ value (bits text) ∧ Odd (text.toList.count '1')))

/-- What there is to say about each word and about all of them, line by line. -/
def answers (layout : Layout) (words : List String) : List String :=
  words.map (fun text => s!"{text} -> {describe (decide (Recognized text))}") ++
    [layout .info s!"Accepted {words.countP (Recognized ·)} of {words.length} words"]

/-! ## The automaton -/

/-- A run that turns the state over at each `true` keeps the parity of how many there were. -/
theorem run_oddOnes {d : Automaton Bool Bool} (hstep : ∀ q bit, d.step q bit = .ok (q ^^ bit)) :
    ∀ (word : List Bool) (q : Bool),
      d.run q word = .ok (q ^^ decide (Odd (word.count true))) := by
  intro word
  induction word with
  | nil =>
    intro q
    cases q <;> rfl
  | cons bit word ih =>
    intro q
    rw [run_cons, hstep, ok_bind, ih]
    cases bit with
    | false => rw [Bool.xor_false, List.count_cons_of_ne Bool.false_ne_true]
    | true =>
      rw [List.count_cons_self, Bool.xor_true, Bool.not_xor]
      simp only [Nat.odd_add_one, decide_not, Bool.xor_not]

/-- The state says whether the ones read so far are odd in number. -/
theorem oddOnes_eq_ok : ∃ d, oddOnes.outcome = .ok d ∧ d.Total ∧
    ∀ word, d.accepts word = .ok (decide (Odd (word.count true))) := by
  obtain ⟨terminal, hbuild, hmem⟩ := ofFunction_eq_ok (S := Bool) (Q := Bool) _ _ _
  refine ⟨_, hbuild, fun q bit => ⟨_, rfl⟩, fun word => ?_⟩
  rw [accepts_of_run (run_oddOnes (fun _ _ => rfl) word _), Bool.false_xor]
  simp only [hmem, Bool.decide_eq_true]

/-- A remainder and a parity make one state, and the successors of all states fit into a table. -/
theorem recognizer_eq_ok : ∃ a, recognizer.outcome = .ok a ∧
    ∀ word, a.accepts word = .ok (decide (3 ∣ value word) && decide (Odd (word.count true))) := by
  have hfits : Indexed.count (Fin 3 × Bool) < indexLimit := by decide
  have := LawfulIndexed.pair hfits
  have hzero : (0 : Fin 3).val = 0 := rfl
  obtain ⟨three, hthree, hreduces⟩ := exists_reduces hzero (by decide) (Nat.le_refl 3)
  obtain ⟨odd, hodd, hoddTotal, hoddAccepts⟩ := oddOnes_eq_ok
  obtain ⟨both, hboth, hcombines⟩ := intersect_eq_ok hfits three odd
  have htotal : both.Total := hcombines.total hreduces.total hoddTotal
  obtain ⟨a, ha, hstart, hterminal, hstep⟩ := tabulate_eq_ok htotal (by decide) (by decide)
  have hsame : both.Interchangeable a := ⟨hstart, hterminal, hstep⟩
  refine ⟨a, ?_, fun word => ?_⟩
  · simp only [recognizer, divisibleByThree, Journal.outcome_bind, hthree, hodd, hboth, ok_bind, ha]
  · rw [hsame.accepts_eq]
    exact hcombines.accepts_eq hfits (hreduces.accepts_eq word) (hoddAccepts word)

theorem count_bits (text : String) : (bits text).count true = text.toList.count '1' := by
  rw [bits, List.count, List.countP_map, List.count]
  refine List.countP_congr fun c _ => ?_
  simp

/-- In a batch each text is answered by whether it is recognized, whatever the settings are
and however the batch is cut. -/
theorem batch_eq_ok {a : Automaton Bool (Fin 3 × Bool)}
    (ha : ∀ word, a.accepts word =
      .ok (decide (3 ∣ value word) && decide (Odd (word.count true))))
    (texts : List String) (settings : BatchSettings) (schedule : Schedule) :
    (a.acceptsBatch (texts.map bits) settings schedule).outcome =
      .ok (texts.map fun text => decide (Recognized text)) := by
  refine (batch_outcome ..).trans ?_
  rw [List.mapM_map]
  refine mapM_eq_ok texts fun text _ => ?_
  show a.accepts (bits text) = _
  rw [ha, count_bits]
  exact congrArg Except.ok (Bool.decide_and _ _).symm

/-- Nothing shows while the automaton is made. -/
theorem quiet_recognizer : recognizer.Quiet :=
  (quiet_ofFunction _ _ _).bind fun _ => (quiet_ofFunction _ _ _).bind fun _ =>
    (quiet_intersect _ _).bind fun _ => quiet_tabulate _

/-! ## Reading words -/

/-- A word of bits is read bit by bit. -/
theorem readWord_eq_ok : ∀ {cs : List Char}, (∀ c ∈ cs, IsBit c) →
    readWord cs = .ok (cs.map (· == '1')) := by
  intro cs
  induction cs with
  | nil => exact fun _ => rfl
  | cons c cs ih =>
    intro h
    obtain ⟨hc, hcs⟩ := List.forall_mem_cons.mp h
    rcases hc with rfl | rfl <;> rw [readWord, ih hcs] <;> rfl

/-- Reading ends at the first character that does not stand for a bit. -/
theorem readWord_eq_error {cs : List Char} {c : Char} (h : FirstNot IsBit cs c) :
    readWord cs = .error c := by
  obtain ⟨front, back, rfl, hfront, hc⟩ := h
  induction front with
  | nil =>
    have hnone : symbol? c = none := by
      unfold symbol?
      split
      next => exact absurd (Or.inl rfl) hc
      next => exact absurd (Or.inr rfl) hc
      next => rfl
    rw [List.nil_append, readWord, hnone]
  | cons x front ih =>
    obtain ⟨hx, hrest⟩ := List.forall_mem_cons.mp hfront
    rcases hx with rfl | rfl <;> rw [List.cons_append, readWord, ih hrest] <;> rfl

theorem parseWord_eq_ok {text : String} (h : IsNumeral text) :
    parseWord text = .ok (bits text) := by
  rw [parseWord, readWord_eq_ok h]
  rfl

/-- The message shows the first wrong character and the word it stands in. -/
theorem parseWord_eq_error {text : String} {c : Char} (h : FirstNot IsBit text.toList c) :
    parseWord text = .error (.report s!"Invalid symbol '{c}' in word '{text}'") := by
  rw [parseWord, readWord_eq_error h]
  rfl

/-- Words of bits are read, all of them, and none is drawn. -/
theorem words_eq_ok {host : Host} {o : Options} (hwords : o.words ≠ [])
    (h : ∀ text ∈ o.words, IsNumeral text) : words host o = .ok (o.words.map bits) := by
  rw [words, if_neg (by rwa [List.isEmpty_iff])]
  exact mapM_eq_ok o.words fun text htext => parseWord_eq_ok (h text htext)

/-- The words are read in order, up to the first that is not written in bits. -/
theorem words_eq_error {host : Host} {o : Options} (hwords : o.words ≠ []) {text : String}
    {c : Char} (htext : FirstNot IsNumeral o.words text) (hc : FirstNot IsBit text.toList c) :
    words host o = .error (.report s!"Invalid symbol '{c}' in word '{text}'") := by
  obtain ⟨before, after, heq, hbefore, _⟩ := htext
  rw [words, if_neg (by rwa [List.isEmpty_iff]), heq]
  exact mapM_eq_error (fun t ht => not_fails_iff.mpr ⟨_, parseWord_eq_ok (hbefore t ht)⟩)
    (parseWord_eq_error hc)

/-! ## What the program shows -/

section Runs

variable {layout : Layout} {host : Host} {o : Options}

/-- With a wrong character among the words, nothing shows but the options. -/
theorem stops_run (hwords : o.words ≠ []) {text : String} {c : Char}
    (htext : FirstNot IsNumeral o.words text) (hc : FirstNot IsBit text.toList c) :
    Stops layout .info (run host o) [s!"args = {o.text}"]
      (.report s!"Invalid symbol '{c}' in word '{text}'") := by
  obtain ⟨a, ha, _⟩ := recognizer_eq_ok
  refine (shows_say _).bind_stops ?_
  refine (shows_quiet quiet_recognizer ha).bind_stops ?_
  exact (stops_liftM (words_eq_error hwords htext hc)).bind _

/-- Each text is answered on a line of its own. -/
theorem shows_lines (answer : String → Bool) : ∀ texts : List String,
    Shows layout .info
      (forIn (texts.zip (texts.map answer)) PUnit.unit fun (text, accepted) _ => do
        say s!"{text} -> {describe accepted}"
        pure (ForInStep.yield PUnit.unit))
      (texts.map fun text => s!"{text} -> {describe (answer text)}") () := by
  intro texts
  induction texts with
  | nil => exact shows_pure ()
  | cons text texts ih =>
    -- the loop takes one pair off the list and says its line
    rw [List.map_cons, List.zip_cons_cons, List.forIn_cons, List.map_cons]
    have hstep : Shows layout .info
        (do say s!"{text} -> {describe (answer text)}"; pure (ForInStep.yield PUnit.unit))
        [s!"{text} -> {describe (answer text)}"] (ForInStep.yield PUnit.unit) :=
      Shows.say_bind (shows_pure _)
    refine hstep.bind ?_
    exact ih

/-- If all words are numerals, the options show and then the answers. -/
theorem shows_run (hwords : o.words ≠ []) (h : ∀ text ∈ o.words, IsNumeral text) :
    Shows layout .info (run host o) (s!"args = {o.text}" :: answers layout o.words) () := by
  obtain ⟨a, ha, haccepts⟩ := recognizer_eq_ok
  have htally : (o.words.map fun text => decide (Recognized text)).count true =
      o.words.countP (Recognized ·) := by
    rw [List.count, List.countP_map]
    exact List.countP_congr fun text _ => by simp
  -- nothing shows between the options and the first answer
  refine Shows.say_bind ?_
  refine (shows_quiet quiet_recognizer ha).silent_bind ?_
  refine (shows_liftM (words_eq_ok hwords h)).silent_bind ?_
  refine (shows_quiet (quiet_acceptsBatch a _ _ _)
    (batch_eq_ok haccepts o.words _ _)).silent_bind ?_
  rw [answers, htally, List.length_map]
  exact (shows_lines _ o.words).bind (shows_record rfl)

end Runs

/-- **The answers of a batch are arithmetic.** Let there be words to ask about. If a word has a
character that does not stand for a bit, then the program reports the first such character of the
first such word, and it neither answers a word nor counts. Otherwise it answers the words one after
the other: a word is accepted if the number that it stands for, most significant bit first, is
divisible by three and the word has an odd number of ones. At the end it logs how many of the words
were accepted. So it goes whatever the other options are, in whatever way the workers of the host
cut the batch, and however the log is laid out. -/
theorem recognizes_words (layout : Layout) (host : Host) (o : Options) (hwords : o.words ≠ []) :
    ((∃ text ∈ o.words, ¬IsNumeral text) → ∃ text c, FirstNot IsNumeral o.words text ∧
      FirstNot IsBit text.toList c ∧ transcript layout .info (run host o) =
        ([s!"args = {o.text}"], some (.report s!"Invalid symbol '{c}' in word '{text}'"))) ∧
    ((∀ text ∈ o.words, IsNumeral text) → transcript layout .info (run host o) =
      (s!"args = {o.text}" :: answers layout o.words, none)) := by
  refine ⟨fun hwrong => ?_, fun hright => (shows_run hwords hright).transcript_eq⟩
  obtain ⟨text, htext⟩ := exists_firstNot _ hwrong
  have hnot : ∃ c ∈ text.toList, ¬IsBit c := by
    obtain ⟨_, _, _, _, hnot⟩ := htext
    simpa [IsNumeral] using hnot
  obtain ⟨c, hc⟩ := exists_firstNot _ hnot
  exact ⟨text, c, htext, hc, (stops_run hwords htext hc).transcript_eq⟩

/-- Two workers, of which one takes the first word and the other the rest. -/
def twoWorkers : Host where
  schedule _ _ := .cut 1 .whole .whole

/-- The options that ask about the words 10101, the empty one and 11. -/
def threeNumerals : Options := ⟨["10101", "", "11"], 100000, 64, 42, 0, false⟩

/-- The options that ask about three words, of which only the first one is a numeral. -/
def oneNumeral : Options := ⟨["101", "1x2y", "?"], 100000, 64, 42, 64, true⟩

/-- All three numerals are those of multiples of three, but only the first has an odd number of
ones. Of the wrong words the first one is reported, with its first wrong character. -/
theorem recognizes_words_threeNumerals :
    transcript Level.line .info (run twoWorkers threeNumerals) =
      ([s!"args = {threeNumerals.text}", "10101 -> true", " -> false", "11 -> false",
        "INFO Accepted 1 of 3 words"], none) ∧
    transcript Level.line .info (run twoWorkers oneNumeral) =
      ([s!"args = {oneNumeral.text}"], some (.report "Invalid symbol 'x' in word '1x2y'")) := by
  refine ⟨?_, ?_⟩
  · obtain ⟨_, hright⟩ :=
      recognizes_words Level.line twoWorkers threeNumerals (List.cons_ne_nil _ _)
    have hnumerals : ∀ text ∈ threeNumerals.words, IsNumeral text := by decide +kernel
    have hanswers : answers Level.line threeNumerals.words =
        ["10101 -> true", " -> false", "11 -> false", "INFO Accepted 1 of 3 words"] := by
      decide +kernel
    rw [hright hnumerals, hanswers]
  · obtain ⟨hwrong, _⟩ := recognizes_words Level.line twoWorkers oneNumeral (List.cons_ne_nil _ _)
    obtain ⟨text, c, htext, hc, hrun⟩ := hwrong ⟨"?", by decide, by decide +kernel⟩
    have hword : FirstNot IsNumeral oneNumeral.words "1x2y" :=
      ⟨["101"], ["?"], rfl, by decide +kernel, by decide +kernel⟩
    have hcharacter : FirstNot IsBit "1x2y".toList 'x' :=
      ⟨['1'], ['2', 'y'], by decide +kernel, List.forall_mem_singleton.mpr (Or.inr rfl), by decide⟩
    obtain rfl := htext.unique hword
    obtain rfl := hc.unique hcharacter
    exact hrun.trans (congrArg (fun message => (_, some (Stop.report message))) (by decide +kernel))

/-! ## Command lines -/

/-- A command line that asks about the words. -/
def commandLine (minLen : String) (sequential : Bool) (words : List String) : List String :=
  ("--min-len=" ++ minLen) :: (if sequential then ["--sequential"] else []) ++ "--" :: words

theorem read_minLen {minLen : String} {n : Nat} (h : number? minLen = some n) :
    Reading.read command {} ("--min-len=" ++ minLen) = .ok { options := [("min-len", n)] } := by
  have hchars : ("--min-len=" ++ minLen).toList =
      '-' :: '-' :: ("min-len".toList ++ '=' :: minLen.toList) := by
    rw [String.toList_append]
    rfl
  rw [Reading.read_eq_readLong rfl hchars (by decide), String.ofList_toList, String.ofList_toList,
    Reading.readLong, if_pos (by decide)]
  show Reading.settle command { pending := some (.option "min-len" (some minLen)) } = _
  simp only [Reading.settle, h]
  rfl

theorem read_sequential (n : Nat) :
    Reading.read command { options := [("min-len", n)] } "--sequential" =
      .ok { options := [("min-len", n)], flags := ["sequential"] } := by
  rfl

/-- The command line is read as it was written: the value of the option, the flag if it stands
there, and the words behind the dashes. -/
theorem read_commandLine {minLen : String} {n : Nat} (h : number? minLen = some n)
    (sequential : Bool) (words : List String) :
    command.read (commandLine minLen sequential words) =
      .ok ⟨[("min-len", n)], if sequential then ["sequential"] else [], words, none, true⟩ := by
  have hfront : (("--min-len=" ++ minLen) :: if sequential then ["--sequential"] else []).foldlM
      (Reading.read command) {} =
        .ok ⟨[("min-len", n)], if sequential then ["sequential"] else [], [], none, false⟩ := by
    rw [List.foldlM_cons, read_minLen h, ok_bind]
    cases sequential with
    | false => rfl
    | true => exact read_sequential n
  exact Command.read_append_dashes rfl hfront rfl (fun _ _ heq => nomatch heq) words

/-- Every list of words, every size of the pieces and both ways of working can be asked for on a
command line, whatever the words look like. -/
theorem perform_batch {minLen : String} {n : Nat} (h : number? minLen = some n) (sequential : Bool)
    (words : List String) (host : Host) :
    perform "batch" (commandLine minLen sequential words) host =
      some (transcript Level.line .info (run host ⟨words, 100000, 64, 42, n, sequential⟩)) := by
  refine congrArg some (((shows_arguments (read_commandLine h sequential words)).transcript_bind
    fun r => run host (.ofReading r)).trans ?_)
  cases sequential <;> rfl

end Automata.Demo.Batch
