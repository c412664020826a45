import Automata.Automaton.Batch
import Automata.Automaton.Boolean
import Automata.Demo.Session
import Automata.Text.Quoted

/-!
# A batch of binary words

The program tells which of many binary words denote a number divisible by three, most significant
bit first, and have an odd number of ones. The words are those of the command line, or else drawn
at random, the same ones for the same seed. The generator and the pool of workers come from the
host that the program runs on.
-/

namespace Automata.Demo.Batch

/-- The options of the program. -/
structure Options where
  words : List String
  random : Nat
  len : Nat
  seed : Nat
  minLen : Nat
  sequential : Bool
  deriving DecidableEq, Repr

/-- What the program takes. -/
def command : CommandLine.Command :=
  ⟨["random", "len", "seed", "min-len"], ["sequential"], .texts⟩

/-- The options that a command line gives, with the defaults filled in. -/
def Options.ofReading (r : CommandLine.Reading) : Options where
  words := r.positionals
  random := r.option "random" 100000
  len := r.option "len" 64
  seed := r.option "seed" 42
  minLen := r.option "min-len" 64
  sequential := r.flags.contains "sequential"

/-- The text of the options. -/
def Options.text (o : Options) : String :=
  s!"Cli \x7b words: {Text.bracketed (o.words.map Text.quoted)}, random: {o.random}, " ++
    s!"len: {o.len}, seed: {o.seed}, min_len: {o.minLen}, sequential: {describe o.sequential} \x7d"

/-- The symbol that a character stands for. -/
def symbol? : Char → Option Bool
  | '0' => some false
  | '1' => some true
  | _ => none

/-- Reads a word, or gives its first character that is not a symbol. -/
def readWord : List Char → Except Char (List Bool)
  | [] => .ok []
  | c :: rest =>
    match symbol? c with
    | some bit => (readWord rest).map (bit :: ·)
    | none => .error c

/-- Reads a text as a word; the message about a wrong character shows it and the text. -/
def parseWord (text : String) : Except Stop (List Bool) :=
  (readWord text.toList).mapError fun c => .report s!"Invalid symbol '{c}' in word '{text}'"

/-- The next state of the generator of random bits. -/
def nextRandom (state : UInt64) : UInt64 := state * 6364136223846793005 + 1442695040888963407

/-- A random word of the given length, and the state of the generator behind it. -/
def randomWord : Nat → UInt64 → List Bool × UInt64
  | 0, state => ([], state)
  | n + 1, state =>
    let state := nextRandom state
    let (rest, after) := randomWord n state
    ((state >>> 63 == 1) :: rest, after)

/-- Random words of the given length. -/
def randomWords (len : Nat) : Nat → UInt64 → List (List Bool)
  | 0, _ => []
  | count + 1, state =>
    let (w, after) := randomWord len state
    w :: randomWords len count after

/-- What the program finds outside itself. -/
structure Host where
  /-- How a pool of workers cuts a batch. -/
  schedule : Schedule := Splitting.halving
  /-- Draws as many words as asked for, all of one length, from a seed. -/
  draw (count len seed : Nat) : List (List Bool) := randomWords len count (UInt64.ofNat seed)

/-- Accepts the numerals of the numbers divisible by three. -/
def divisibleByThree : Logged Fault (Automaton Bool (Fin 3)) :=
  Automaton.ofFunction 0 (fun q => q.val == 0) fun q bit =>
    boundedNumber 3 ((2 * q.val + bit.toNat) % 3)

/-- Accepts the words with an odd number of ones. -/
def oddOnes : Logged Fault (Automaton Bool Bool) :=
  Automaton.ofFunction false (fun q => q) fun q bit => .ok (q ^^ bit)

/-- Accepts the words that the program is about. -/
def recognizer : Logged Fault (Automaton Bool (Fin 3 × Bool)) := do
  let both ← (← divisibleByThree).intersect (← oddOnes)
  both.tabulate

/-- The words that the options ask about. -/
def words (host : Host) (o : Options) : Except Stop (List (List Bool)) :=
  if o.words.isEmpty then .ok (host.draw o.random o.len o.seed)
  else o.words.mapM parseWord

/-- Prints the options, for each word of the command line whether it is accepted, and how many
words are. Nothing is printed about any word when one of them cannot be read. -/
def run (host : Host) (o : Options) : Session Unit := do
  say s!"args = {o.text}"
  let a ← recognizer
  let ws ← words host o
  let results ← a.acceptsBatch ws { parallel := !o.sequential, minLen := o.minLen } host.schedule
  for (text, accepted) in o.words.zip results do
    say s!"{text} -> {describe accepted}"
  Journal.write (.logged (.tally (results.count true) ws.length))

/-- The program. -/
def program (host : Host) (args : List String) : Session Unit := do
  run host (.ofReading (← arguments command args))

end Automata.Demo.Batch
