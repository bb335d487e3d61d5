import Chip8.Fault
import Chip8.Instruction.Text
import Chip8.Text

/-!
# Notices

What the console reports while it runs: one constructor per occasion, with what it tells. The level
and the wording are read off the occasion, so a law about the log is a law about occasions.
-/
namespace Chip8

/-- How much a notice matters, from the least. -/
inductive Level where
  | trace | debug | info | warn | error
  deriving DecidableEq, Repr

/-- An occasion worth a line in the log. -/
inductive Notice where
  /-- About to carry out `ins`, decoded from `word`, with the given registers, index and pc. -/
  | executing (word : Word) (ins : Instruction) (registers : Registers) (index pc : Word)
  /-- A request to show the frame was dropped, as many are pending already. -/
  | redrawDropped
  | programLoaded (size : Nat)
  | romLoaded (path : String) (size : Nat)
  /-- A key was pressed that the keypad does not have. -/
  | noSuchKey (code : UInt8)
  /-- The run begins, with its two periods in nanoseconds. -/
  | running (stepPeriod resetPeriod : Nat)
  | quitting
  /-- The run ends at `pc` with a fault. -/
  | halted (pc : Word) (fault : Fault)
  | inputGone
  | readFailed (message : String)
  /-- Nobody takes the signals of the keyboard any more. -/
  | runLoopGone
  deriving DecidableEq, Repr

namespace Level

/-- The name of a level, as it begins a line. -/
def text : Level → String
  | trace => "TRACE"
  | debug => "DEBUG"
  | info => "INFO"
  | warn => "WARN"
  | error => "ERROR"

end Level

namespace Notice

def level : Notice → Level
  | executing .. | redrawDropped => .trace
  | programLoaded _ | runLoopGone => .debug
  | romLoaded .. | running .. | quitting => .info
  | noSuchKey _ | inputGone => .warn
  | halted .. | readFailed _ => .error

/-- The registers between brackets, each with two digits. -/
def registersText (v : Registers) : String :=
  "[" ++ ", ".intercalate (v.toList.map fun byte => Text.hex 2 byte.toNat) ++ "]"

def text : Notice → String
  | executing word ins v index pc =>
    Text.hex 4 word.toNat ++ " " ++ ins.text ++ " v" ++ registersText v
      ++ " i" ++ Text.hex 4 index.toNat ++ " pc" ++ Text.hex 4 pc.toNat
  | redrawDropped => "render queue full, dropping request"
  | programLoaded size =>
    "loaded " ++ toString size ++ " byte program at " ++ Text.address programStart
  | romLoaded path size => "loaded ROM " ++ path ++ " (" ++ toString size ++ " bytes)"
  | noSuchKey code => "ignoring press of nonexistent key " ++ Text.keyCode code.toNat
  | running stepPeriod resetPeriod =>
    "running at " ++ Text.duration stepPeriod ++ " per step, keypad reset every "
      ++ Text.duration resetPeriod
  | quitting => "quit requested, shutting down"
  | halted pc fault => "halted at pc " ++ Text.address pc.toNat ++ ": " ++ fault.message
  | inputGone => "input thread has gone away, no more keys will arrive"
  | readFailed message => "unable to read from the terminal: " ++ message
  | runLoopGone => "run loop has gone away, stopping input"

/-- The line of a log: the level, a blank and the words. -/
def line (notice : Notice) : String := notice.level.text ++ " " ++ notice.text

end Notice
end Chip8
