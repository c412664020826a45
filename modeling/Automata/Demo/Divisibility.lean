import Automata.Automaton.Boolean
import Automata.Demo.Session
import Automata.Language.Decision
import Automata.Text.Quoted

/-!
# Divisibility

Binary numerals, most significant bit first, of the numbers divisible by a modulus are the
language of an automaton whose state is the remainder of the number read so far. The program
compares the languages of two moduli.
-/

namespace Automata.Demo.Divisibility

/-- The largest modulus; states from the modulus on are never reached. -/
abbrev maxModulus : Nat := 32

/-- A remainder. -/
abbrev State : Type := Fin maxModulus

/-- The options of the program. -/
structure Options where
  a : Nat
  b : Nat
  limit : Nat
  deriving DecidableEq, Repr

/-- What the program takes: two moduli and the largest number to check. -/
def command : CommandLine.Command := ⟨["limit"], [], .numbers 2⟩

/-- The options that a command line gives, with the defaults filled in. -/
def Options.ofReading (r : CommandLine.Reading) : Options :=
  ⟨r.numberAt 0 3, r.numberAt 1 5, r.option "limit" 100⟩

/-- The text of the options. -/
def Options.text (o : Options) : String :=
  s!"Cli \x7b a: {o.a}, b: {o.b}, limit: {o.limit} \x7d"

/-- Accepts the numerals of the numbers divisible by `n`. -/
def divisibleBy (n : Nat) : Logged Fault (Automaton Bool State) :=
  Automaton.ofFunction 0 (fun q => q.val == 0) fun q bit =>
    boundedNumber maxModulus ((2 * q.val + bit.toNat) % n)

/-- The binary numeral of a number, most significant bit first. -/
def binary (n : Nat) : List Bool :=
  if n < 2 then [n == 1] else binary (n / 2) ++ [n % 2 == 1]

/-- The numbers up to `limit` whose numerals are accepted. -/
def accepted {Q : Type} [Indexed Q] (a : Automaton Bool Q) (limit : Nat) : Checked (List Nat) :=
  (List.range (limit + 1)).filterM fun n => a.accepts (binary n)

/-- The text of a list of numbers. -/
def listed (numbers : List Nat) : String := Text.bracketed (numbers.map toString)

/-- Whether a number can be a modulus. -/
def isModulus (n : Nat) : Bool := 1 ≤ n && n ≤ maxModulus

/-- Prints the comparison of the two moduli. -/
def compare (o : Options) : Session Unit := do
  let da ← divisibleBy o.a
  let db ← divisibleBy o.b
  say s!"reachable states of mod {o.a}: {(← da.reachableStates).len}"
  let both ← da.intersect db
  let either ← da.union db
  let onlyA ← da.difference db
  say s!"divisible by {o.a} and {o.b}: {listed (← accepted both o.limit)}"
  say s!"divisible by {o.a} or {o.b}: {listed (← accepted either o.limit)}"
  say s!"divisible by {o.a} but not {o.b}: {listed (← accepted onlyA o.limit)}"
  let implies ← da.isSubsetOf db
  say s!"divisible by {o.a} implies divisible by {o.b}: {describe implies}"
  match ← da.distinguishingWord db with
  | some w =>
    let digits := String.ofList (w.map fun bit => if bit then '1' else '0')
    say s!"shortest word telling them apart: {digits}"
  | none => pure ()

/-- Prints the options and, if both moduli can be compared, their comparison. -/
def run (o : Options) : Session Unit := do
  say s!"args = {o.text}"
  if isModulus o.a && isModulus o.b then compare o
  else report s!"Moduli must be in 1..={maxModulus}"

/-- The program. -/
def program (args : List String) : Session Unit := do
  run (.ofReading (← arguments command args))

end Automata.Demo.Divisibility
