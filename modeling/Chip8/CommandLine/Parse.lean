import Chip8.CommandLine.Settings

/-!
# Reading the command line

Arguments are taken from left to right. An option with an attached value is complete at once; one
without waits for the next argument, and is completed when another option or the end is reached.
What is wrong with a waiting option is therefore noticed later than an unknown argument behind it.
-/
namespace Chip8.CommandLine

/-- An option that is not complete yet, with the value that has followed it. -/
structure Waiting where
  flag : Flag
  value : Option String
  deriving DecidableEq, Repr

/-- Completes the waiting option, if there is one. -/
def settleWaiting (d : Draft) : Option Waiting → Except Refusal Draft
  | none => .ok d
  | some waiting => d.settle waiting.flag waiting.value

def conclude (d : Draft) (waiting : Option Waiting) : Except Refusal Settings :=
  (settleWaiting d waiting).bind Draft.finish

def parseFrom (d : Draft) (waiting : Option Waiting) : List String → Except Refusal Settings
  | [] => conclude d waiting
  | text :: rest =>
    match Argument.ofText text with
    | .unknown => .error .unknownArgument
    | .surplusValue => .error .tooManyValues
    | .help => (settleWaiting d waiting).bind fun _ => .error .helpWanted
    | .version => (settleWaiting d waiting).bind fun _ => .error .versionWanted
    | .separator =>
      match rest with
      | [] => conclude d waiting
      | _ :: _ => .error .unknownArgument
    | .option flag none =>
      match settleWaiting d waiting with
      | .error refusal => .error refusal
      | .ok d => parseFrom d (some ⟨flag, none⟩) rest
    | .option flag (some value) =>
      match (settleWaiting d waiting).bind fun d => d.settle flag (some value) with
      | .error refusal => .error refusal
      | .ok d => parseFrom d none rest
    | .plain value =>
      match waiting with
      | some ⟨flag, none⟩ => parseFrom d (some ⟨flag, some value⟩) rest
      | _ => .error .unknownArgument

/-- The settings that the arguments of a command line give; the program's own name is not one of
them. -/
def parse (arguments : List String) : Except Refusal Settings :=
  parseFrom Draft.empty none arguments

end Chip8.CommandLine
