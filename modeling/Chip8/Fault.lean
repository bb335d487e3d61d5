import Chip8.Text
import Chip8.Word

/-!
# Faults

Everything that can stop a program, by cause, and the one place that words it. None of them is
recovered from: whoever runs the machine hands the first one on.
-/
namespace Chip8

/-- Why a program cannot go on. -/
inductive Fault where
  | unknownWord (word : Word)
  /-- No whole word can be read at the program counter. -/
  | pcOutOfRange (pc : Word)
  /-- A call at `pc` with every usable stack slot taken. -/
  | stackOverflow (pc : Word)
  /-- A return at `pc` outside of any call. -/
  | stackUnderflow (pc : Word)
  /-- `len` bytes from `addr` on do not all exist. -/
  | addressOutOfRange (addr len : Nat)
  | romTooLarge (size capacity : Nat)
  /-- A device outside of the machine failed, with its own message. -/
  | device (message : String)
  deriving DecidableEq, Repr

def Fault.message : Fault → String
  | unknownWord w => "Unknown OpCode: " ++ Text.hex 4 w.toNat
  | pcOutOfRange pc => "program counter " ++ Text.address pc.toNat ++ " is outside of memory"
  | stackOverflow pc => "call at " ++ Text.address pc.toNat ++ " overflows the stack"
  | stackUnderflow pc => "return at " ++ Text.address pc.toNat ++ " with an empty stack"
  | addressOutOfRange addr len =>
    toString len ++ " byte access at " ++ Text.address addr ++ " runs past the end of memory"
  | romTooLarge size capacity =>
    "ROM is " ++ toString size ++ " bytes but only " ++ toString capacity ++ " fit in memory"
  | device message => message

end Chip8
