/-!
# Arguments of the command line

How one argument looks by itself. A value belongs to the option before it, or is attached to its
option's name by an equals sign; then it may be anything, also nothing.
-/
namespace Chip8.CommandLine

inductive Flag where
  | rom
  | clockHz
  | resetHz
  | logFile
  deriving DecidableEq, Repr

/-- What an argument can be. -/
inductive Argument where
  | option (flag : Flag) (attached : Option String)
  | help
  | version
  /-- A value attached to a name that takes none. -/
  | surplusValue
  /-- The two dashes after which nothing is an option. -/
  | separator
  | unknown
  /-- Anything that does not begin with a dash, and a dash alone. -/
  | plain (text : String)
  deriving DecidableEq, Repr

namespace Flag

def name : Flag → String
  | rom => "rom"
  | clockHz => "clock-hz"
  | resetHz => "reset-hz"
  | logFile => "log-file"

def all : List Flag := [rom, clockHz, resetHz, logFile]

/-- The option with exactly this name. -/
def named? (name : String) : Option Flag := all.find? fun flag => flag.name == name

theorem named?_name (flag : Flag) : named? flag.name = some flag := by
  cases flag <;> decide

end Flag

namespace Argument

/-- An argument that begins with two dashes, from its name and the value attached to it. -/
def ofLongName (name : String) (attached : Option String) : Argument :=
  if name = "help" then (if attached.isNone then help else surplusValue)
  else if name = "version" then (if attached.isNone then version else surplusValue)
  else
    match Flag.named? name with
    | some flag => option flag attached
    | none => unknown

/-- The value behind the first equals sign, if there is one. -/
def attachedValue (body : List Char) : Option String :=
  match body.dropWhile (· ≠ '=') with
  | [] => none
  | _ :: value => some (String.ofList value)

/-- The argument that a text is. Of several letters behind one dash the first one counts. -/
def ofText (text : String) : Argument :=
  match text.toList with
  | ['-', '-'] => separator
  | '-' :: '-' :: body =>
    ofLongName (String.ofList (body.takeWhile (· ≠ '='))) (attachedValue body)
  | '-' :: 'h' :: _ => help
  | '-' :: 'V' :: _ => version
  | '-' :: _ :: _ => unknown
  | _ => plain text

end Argument
end Chip8.CommandLine
