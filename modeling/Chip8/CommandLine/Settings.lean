import Chip8.CommandLine.Argument
import Chip8.RunLoop.Basic

/-!
# Settings

What the player can set, and how a value for an option is checked. A path is any text but the empty
one; a rate is an optional plus sign and decimal digits, with a value from 1 to 4294967295.
-/
namespace Chip8.CommandLine

/-- Why a command line gives no settings. The first two are answers, not mistakes. -/
inductive Refusal where
  | helpWanted
  | versionWanted
  /-- No such option, or a value that belongs to none. -/
  | unknownArgument
  /-- A value for a name that takes none. -/
  | tooManyValues
  /-- A value is missing or empty. -/
  | missingValue
  | repeatedOption
  | badRate
  | romRequired
  deriving DecidableEq, Repr

/-- What a run is started with. -/
structure Settings where
  rom : String
  clockHz : Nat
  resetHz : Nat
  logFile : String
  deriving DecidableEq, Repr

def Settings.rates (s : Settings) : Rates := ⟨s.clockHz, s.resetHz⟩

/-- The values given so far. -/
structure Draft where
  rom : Option String
  clockHz : Option Nat
  resetHz : Option Nat
  logFile : Option String
  deriving DecidableEq, Repr

def decimalValue (digits : List Char) : Nat :=
  digits.foldl (fun value digit => value * 10 + (digit.toNat - '0'.toNat)) 0

/-- The characters behind a leading plus sign, or all of them. -/
def unsigned : List Char → List Char
  | '+' :: rest => rest
  | text => text

def rate? (text : String) : Except Refusal Nat :=
  let digits := unsigned text.toList
  let value := decimalValue digits
  if digits ≠ [] ∧ digits.all Char.isDigit ∧ 1 ≤ value ∧ value ≤ 4294967295 then .ok value
  else .error .badRate

def path? (text : String) : Except Refusal String :=
  if text = "" then .error .missingValue else .ok text

namespace Draft

def empty : Draft := ⟨none, none, none, none⟩

def has (d : Draft) : Flag → Bool
  | .rom => d.rom.isSome
  | .clockHz => d.clockHz.isSome
  | .resetHz => d.resetHz.isSome
  | .logFile => d.logFile.isSome

/-- Gives an option its value, after checking it. -/
def assign (d : Draft) (flag : Flag) (text : String) : Except Refusal Draft :=
  match flag with
  | .rom => (path? text).map fun path => { d with rom := some path }
  | .clockHz => (rate? text).map fun rate => { d with clockHz := some rate }
  | .resetHz => (rate? text).map fun rate => { d with resetHz := some rate }
  | .logFile => (path? text).map fun path => { d with logFile := some path }

/-- Completes an option. That it has no value is noticed before that it is given twice, and that
before what is wrong with the value. -/
def settle (d : Draft) (flag : Flag) (value : Option String) : Except Refusal Draft :=
  match value with
  | none => .error .missingValue
  | some text => if d.has flag then .error .repeatedOption else d.assign flag text

/-- The settings, with the usual values for the options that are not given. -/
def finish (d : Draft) : Except Refusal Settings :=
  match d.rom with
  | none => .error .romRequired
  | some rom =>
    .ok ⟨rom, d.clockHz.getD defaultClockHz, d.resetHz.getD defaultResetHz,
      d.logFile.getD "chip8.log"⟩

end Draft
end Chip8.CommandLine
