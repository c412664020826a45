import Automata.CommandLine
import Automata.Fault
import Automata.Log

/-!
# Program sessions

A program prints lines and leaves log records between them, and it may stop early: because its
command line is refused, because its arguments make no sense, or with a fault. A session holds
all of that, so a program is a value and only its outermost layer prints. How a log record is laid
out is left to that layer.
-/

namespace Automata.Demo

open CommandLine (UsageError)

/-- Something that shows while a program runs. -/
inductive Event where
  | line (text : String)
  | logged (r : Record)

/-- Why a program stopped early. -/
inductive Stop where
  | usage (error : UsageError)
  | report (message : String)
  | fault (f : Fault)

/-- A computation that prints lines and leaves a log. -/
abbrev Session (α : Type) : Type := Journal Event Stop α

/-- Computations of the library run within a session, their log among its lines. -/
instance : MonadLift (Journal Record Fault) (Journal Event Stop) where
  monadLift x := x.relabel .logged .fault

instance : MonadLift (Except Fault) (Except Stop) where
  monadLift x := x.mapError .fault

/-- Prints a line. -/
def say (text : String) : Session Unit := Journal.write (.line text)

/-- Stops the program with a message. -/
def report {α : Type} (message : String) : Session α := throw (.report message)

/-- Reads a command line or stops with what is wrong with it. -/
def arguments (c : CommandLine.Command) (args : List String) : Session CommandLine.Reading :=
  ((c.read args).mapError Stop.usage : Except Stop CommandLine.Reading)

/-- A way of writing a text that was logged at a level. -/
abbrev Layout : Type := Level → String → String

/-- The text of an event for a reader who asks for records up to `level`. -/
def Event.shown? (layout : Layout) (level : Level) : Event → Option String
  | .line text => some text
  | .logged r => if r.shownAt level then some (layout r.level r.text) else none

/-- What a session shows at a log level, and why it stopped early if it did. -/
def transcript (layout : Layout) (level : Level) (x : Session Unit) : List String × Option Stop :=
  (x.entries.filterMap (Event.shown? layout level),
    match x.outcome with
    | .ok () => none
    | .error stop => some stop)

end Automata.Demo
