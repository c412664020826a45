import Automata.Automaton.Boolean
import Automata.Demo.Session
import Automata.Language.Counting
import Automata.Language.Decision
import Automata.Text.Quoted

/-!
# A first tour

Two small automata over bits, one for words that end in one and one for words of even length, are
built, combined and questioned.
-/

namespace Automata.Demo.Simple

/-- The two bits. -/
abbrev Bit : Type := Enumeration.Variant ⟨"Bit", #["Zero", "One"]⟩

/-- Whether the last symbol was one. -/
abbrev State : Type := Enumeration.Variant ⟨"State", #["A", "B"]⟩

def zero : Bit := ⟨⟨0, by decide⟩⟩

def one : Bit := ⟨⟨1, by decide⟩⟩

def stateA : State := ⟨⟨0, by decide⟩⟩

def stateB : State := ⟨⟨1, by decide⟩⟩

/-- Accepts the words that end in one. -/
def endsInOne : Logged Fault (Automaton Bit State) := do
  let table ← (Table.ofFunction fun _ s => .ok (if s = one then stateB else stateA) :
    Checked (Table Bit State))
  let terminal ← StateSet.ofList [stateB]
  Automaton.ofTable stateA terminal table

/-- Accepts the words of even length. -/
def evenLength : Logged Fault (Automaton Bit (Fin 2)) :=
  Automaton.ofFunction 0 (fun q => q.val == 0) fun q _ => boundedNumber 2 (1 - q.val)

/-- The text of a word. -/
def word (w : List Bit) : String := Text.bracketed (w.map describe)

/-- Prints whether a word is accepted. -/
def sayAccepts {Q : Type} [Indexed Q] (label : String) (a : Automaton Bit Q) (w : List Bit) :
    Session Unit := do
  say s!"{label} = {describe (← a.accepts w)}"

/-- The program. -/
def program : Session Unit := do
  let endsInOne ← endsInOne
  say s!"ends_in_one = {← endsInOne.describe}"
  for w in [[one, zero, one], [one, zero], []] do
    sayAccepts s!"accepts({word w})" endsInOne w
  let notOne ← endsInOne.complement
  sayAccepts s!"complement accepts {word [one, zero]}" notOne [one, zero]
  let evenLength ← evenLength
  let both ← endsInOne.intersect evenLength
  say s!"both = {← both.describe}"
  for w in [[one, zero, one, one], [one, zero, one]] do
    sayAccepts s!"both accepts {word w}" both w
  let either ← endsInOne.union evenLength
  sayAccepts s!"either accepts {word [one, zero, one]}" either [one, zero, one]
  let shortest := match ← both.shortestAccepted with
    | some w => s!"Some({word w})"
    | none => "None"
  say s!"shortest word accepted by both = {shortest}"
  say s!"words of length 8 accepted by both = {← both.countAccepted 8}"

end Automata.Demo.Simple
