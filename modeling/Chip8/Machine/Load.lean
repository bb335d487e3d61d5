import Chip8.Machine.Basic
import Chip8.Outcome

/-!
# Loading a program

A program goes to address 0x200 and may fill memory from there to its end. It is given as bytes or
by a reader, which hands its bytes out in portions and may be interrupted or fail in between.
-/
namespace Chip8

/-- What a reader gives when asked for more. -/
inductive Portion where
  /-- Some bytes; none at all mean that the input has ended. -/
  | bytes (data : List UInt8)
  /-- Nothing for now; asking again helps. -/
  | interrupted
  /-- A failure that asking again does not mend. -/
  | failed (message : String)
  deriving DecidableEq, Repr

namespace Portion

/-- Everything a reader gives up to the end of its input, or the message of the failure that came
first. -/
def readToEnd : List Portion → Except String (List UInt8)
  | [] => .ok []
  | .interrupted :: rest => readToEnd rest
  | .failed message :: _ => .error message
  | .bytes [] :: _ => .ok []
  | .bytes (first :: more) :: rest => (readToEnd rest).map (first :: more ++ ·)

end Portion

namespace Machine

def install (m : Machine) (program : List UInt8) : Outcome Machine Unit :=
  if programCapacity < program.length then
    .failed (.romTooLarge program.length programCapacity) m
  else
    ⟨.ok (), { m with memory := m.memory.write programStart program },
      [.programLoaded program.length]⟩

def installFrom (m : Machine) (reader : List Portion) : Outcome Machine Unit :=
  match Portion.readToEnd reader with
  | .error message => .failed (.device message) m
  | .ok program => m.install program

end Machine
end Chip8
