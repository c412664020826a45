import Automata.Demo.Batch
import Automata.Demo.Divisibility
import Automata.Demo.Simple

/-!
# The programs

Each program has a name and a level up to which its log is shown.
-/

namespace Automata.Demo

/-- What the program with the given name shows for a command line, and why it stopped early if it
did. -/
def perform (name : String) (args : List String) (host : Batch.Host := {}) :
    Option (List String × Option Stop) :=
  match name with
  | "simple" => some (transcript Level.line .debug Simple.program)
  | "divisibility" => some (transcript Level.line .info (Divisibility.program args))
  | "batch" => some (transcript Level.line .info (Batch.program host args))
  | _ => none

end Automata.Demo
