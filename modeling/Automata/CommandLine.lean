/-!
# Command lines

A command takes options, written `--name value` or `--name=value`, flags, and positional
arguments between and after them; after `--` every argument is positional. The line is read from
left to right. A value written after an equals sign is looked at when it is read. The value of an
option that stands on its own, and that of a positional argument, is looked at when the next
argument that the command knows is read, or at the end of the line; so an argument that the
command does not know is reported even when such a value before it is wrong.
-/

namespace Automata.CommandLine

/-- Why a command line does not start a program. -/
inductive UsageError where
  | unknownArgument
  | valueValidation
  | invalidValue
  | argumentConflict
  | tooManyValues
  | displayHelp
  | displayVersion
  deriving DecidableEq, Repr

/-- The name of a usage error. -/
def UsageError.name : UsageError → String
  | .unknownArgument => "UnknownArgument"
  | .valueValidation => "ValueValidation"
  | .invalidValue => "InvalidValue"
  | .argumentConflict => "ArgumentConflict"
  | .tooManyValues => "TooManyValues"
  | .displayHelp => "DisplayHelp"
  | .displayVersion => "DisplayVersion"

/-- The positional arguments of a command. -/
inductive Positionals where
  /-- At most `most` numbers. -/
  | numbers (most : Nat)
  /-- Any number of texts. -/
  | texts
  deriving DecidableEq, Repr

/-- What a command takes. -/
structure Command where
  /-- The names of the options, whose values are numbers. -/
  options : List String
  /-- The names of the flags. -/
  flags : List String
  positionals : Positionals

/-- An argument whose value has not been looked at. -/
inductive Pending where
  | option (name : String) (value : Option String)
  | positional (text : String)

/-- What has been read of a command line. -/
structure Reading where
  options : List (String × Nat) := []
  flags : List String := []
  positionals : List String := []
  pending : Option Pending := none
  /-- Whether only positional arguments follow. -/
  literal : Bool := false

/-- Reads a number of 64 bits: decimal digits, perhaps after a plus sign. -/
def number? (text : String) : Option Nat :=
  let digits := match text.toList with
    | '+' :: rest => rest
    | cs => cs
  if digits.isEmpty || !digits.all Char.isDigit then none
  else
    let n := digits.foldl (fun n c => 10 * n + (c.toNat - '0'.toNat)) 0
    if n < UInt64.size then some n else none

namespace Reading

variable (c : Command)

/-- How many positional arguments have been read. -/
def positionalCount (r : Reading) : Nat :=
  match r.pending with
  | some (.positional _) => r.positionals.length + 1
  | _ => r.positionals.length

/-- Looks at the value of the pending argument. An option without a value is reported first, then
one that was given before, then a value that is not a number. -/
def settle (r : Reading) : Except UsageError Reading :=
  match r.pending with
  | none => .ok r
  | some (.option _ none) => .error .invalidValue
  | some (.option name (some value)) =>
    if (r.options.lookup name).isSome then .error .argumentConflict
    else
      match number? value with
      | some n => .ok { r with options := r.options ++ [(name, n)], pending := none }
      | none => .error .valueValidation
  | some (.positional text) =>
    let settled := { r with positionals := r.positionals ++ [text], pending := none }
    match c.positionals with
    | .texts => .ok settled
    | .numbers _ => if (number? text).isSome then .ok settled else .error .valueValidation

/-- Reads a positional argument. -/
def readPositional (r : Reading) (text : String) : Except UsageError Reading := do
  let room := match c.positionals with
    | .texts => true
    | .numbers most => r.positionalCount < most
  if room then
    return { ← r.settle c with pending := some (.positional text) }
  else throw .unknownArgument

/-- Reads `--name` or `--name=value`. -/
def readLong (r : Reading) (name : String) (value : Option String) :
    Except UsageError Reading := do
  if c.options.contains name then
    let read := { ← r.settle c with pending := some (.option name value) }
    if value.isSome then read.settle c else return read
  else if c.flags.contains name || name == "help" || name == "version" then
    if value.isSome then throw .tooManyValues
    let r ← r.settle c
    if c.flags.contains name then
      if r.flags.contains name then throw .argumentConflict
      return { r with flags := r.flags ++ [name] }
    throw (if name == "help" then .displayHelp else .displayVersion)
  else throw .unknownArgument

/-- Reads an argument of single letters after one dash. -/
def readShort (r : Reading) (letter : Char) : Except UsageError Reading := do
  if letter == 'h' then
    let _ ← r.settle c
    throw .displayHelp
  else if letter == 'V' then
    let _ ← r.settle c
    throw .displayVersion
  else throw .unknownArgument

/-- Reads one argument. -/
def read (r : Reading) (arg : String) : Except UsageError Reading :=
  if r.literal then r.readPositional c arg
  else
    match arg.toList with
    | ['-', '-'] => .ok { r with literal := true }
    | '-' :: '-' :: rest =>
      let name := String.ofList (rest.takeWhile (· != '='))
      match rest.dropWhile (· != '=') with
      | [] => r.readLong c name none
      | _ :: value => r.readLong c name (some (String.ofList value))
    | '-' :: letter :: _ => r.readShort c letter
    | _ =>
      match r.pending with
      | some (.option name none) => .ok { r with pending := some (.option name (some arg)) }
      | _ => r.readPositional c arg

end Reading

/-- Reads a command line. -/
def Command.read (c : Command) (args : List String) : Except UsageError Reading := do
  (← args.foldlM (Reading.read c) {}).settle c

/-- The value of an option, or its default. -/
def Reading.option (r : Reading) (name : String) (default : Nat) : Nat :=
  (r.options.lookup name).getD default

/-- The number at a position among the positional arguments, or its default. -/
def Reading.numberAt (r : Reading) (position default : Nat) : Nat :=
  (r.positionals[position]? >>= number?).getD default

end Automata.CommandLine
