import Automata.Demo

/-!
The command line: the first argument names a program, the others are its own.
-/

open Automata.Demo

/-- Runs a program, prints what it shows, and ends with a code that tells how it went. -/
def main (args : List String) : IO UInt32 := do
  let (name, rest) := match args with
    | [] => ("simple", [])
    | name :: rest => (name, rest)
  match perform name rest with
  | none =>
    IO.eprintln s!"no program is called {name}"
    return 2
  | some (lines, stop) =>
    for line in lines do
      IO.println line
    match stop with
    | none => return 0
    | some (.usage error) =>
      IO.eprintln error.name
      return 2
    | some (.report message) =>
      IO.eprintln s!"Error: {message}"
      return 1
    | some (.fault f) =>
      IO.eprintln f.message
      return 101
