import Chip8.Arithmetic
import Chip8.CallStack
import Chip8.Frame.Sprite
import Chip8.Keypad
import Chip8.Memory

/-!
# The machine

The whole state of the console, and the small changes that its operations are made of. The
counters `bytesAsked` and `keysAsked` say how far the machine has got in its `Supply`.
-/
namespace Chip8

structure Machine where
  memory : Memory
  /-- V0 to VF; VF is also the flag of arithmetic and of drawing. -/
  registers : Registers
  /-- Where drawing and transfers find their bytes. -/
  index : Word
  pc : Word
  calls : CallStack
  delay : UInt8
  sound : UInt8
  frame : Frame
  keypad : Keypad
  /-- Requests to show the frame that nobody has taken yet. -/
  pendingRedraws : Nat
  bytesAsked : Nat
  keysAsked : Nat
  deriving DecidableEq, Repr

namespace Machine

/-- A machine that has just been switched on, without a program. -/
def initial : Machine where
  memory := Memory.initial
  registers := Vector.replicate 16 0
  index := 0
  pc := 0x200
  calls := CallStack.empty
  delay := 0
  sound := 0
  frame := Frame.blank
  keypad := Keypad.released
  pendingRedraws := 0
  bytesAsked := 0
  keysAsked := 0

def reg (m : Machine) (x : Register) : UInt8 := m.registers[x]

def advance (m : Machine) : Machine := { m with pc := m.pc + 2 }

def skipIf (m : Machine) (condition : Bool) : Machine :=
  { m with pc := m.pc + if condition then 4 else 2 }

def setReg (m : Machine) (x : Register) (byte : UInt8) : Machine :=
  { m with registers := m.registers.set x byte }

/-- Puts the flag into VF and then the result into Vx, so the result wins if x is F. -/
def setFlagged (m : Machine) (x : Register) (outcome : UInt8 × Bool) : Machine :=
  (m.setReg 0xF (Arithmetic.flagByte outcome.2)).setReg x outcome.1

/-- Puts the given bytes into V0 and the registers behind it. -/
def loadRegs (m : Machine) (bytes : List UInt8) : Machine :=
  { m with registers := Vector.ofFn fun x => (bytes[x.val]?).getD (m.reg x) }

def regsTo (m : Machine) (x : Register) : List UInt8 := m.registers.toList.take (x + 1)

/-- Asks for the frame to be shown, unless five requests are pending. -/
def requestRedraw (m : Machine) : Machine :=
  if m.pendingRedraws < 5 then { m with pendingRedraws := m.pendingRedraws + 1 } else m

/-- What a request to show the frame is worth noting. -/
def redrawNotices (m : Machine) : List Notice :=
  if m.pendingRedraws < 5 then [] else [.redrawDropped]

/-- The machine without its oldest request to show the frame, if there is one. -/
def takeRedraw? (m : Machine) : Option Machine :=
  if m.pendingRedraws = 0 then none
  else some { m with pendingRedraws := m.pendingRedraws - 1 }

def press (m : Machine) (code : UInt8) : Machine := { m with keypad := m.keypad.press code }

def releaseKeys (m : Machine) : Machine := { m with keypad := Keypad.released }

/-- Both timers move one towards zero. -/
def countDown (m : Machine) : Machine :=
  { m with delay := UInt8.ofNat (m.delay.toNat - 1), sound := UInt8.ofNat (m.sound.toNat - 1) }

end Machine
end Chip8
