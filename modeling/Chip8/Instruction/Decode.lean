import Chip8.Fault
import Chip8.Instruction.Basic

/-!
# Decoding

From a word to the instruction it stands for. The first digit selects a family; families with more
than one member are told apart by the last digit or the low byte. Digits that an instruction does
not use are free only in the two shifts, whose y is ignored.
-/
namespace Chip8.Instruction

/-- The 8xyn family: arithmetic between registers. -/
def decodeArithmetic (w : Word) : Except Fault Instruction :=
  match w.n.val with
  | 0x0 => .ok (.copy w.x w.y)
  | 0x1 => .ok (.or w.x w.y)
  | 0x2 => .ok (.and w.x w.y)
  | 0x3 => .ok (.xor w.x w.y)
  | 0x4 => .ok (.add w.x w.y)
  | 0x5 => .ok (.subtract w.x w.y)
  | 0x6 => .ok (.shiftRight w.x)
  | 0x7 => .ok (.subtractFrom w.x w.y)
  | 0xE => .ok (.shiftLeft w.x)
  | _ => .error (.unknownWord w)

/-- The Fxkk family: timers, the index and transfers to and from memory. -/
def decodeTransfer (w : Word) : Except Fault Instruction :=
  match w.low.toNat with
  | 0x07 => .ok (.readDelay w.x)
  | 0x0A => .ok (.awaitKey w.x)
  | 0x15 => .ok (.setDelay w.x)
  | 0x18 => .ok (.setSound w.x)
  | 0x1E => .ok (.addIndex w.x)
  | 0x29 => .ok (.loadGlyph w.x)
  | 0x33 => .ok (.storeDecimal w.x)
  | 0x55 => .ok (.storeRegisters w.x)
  | 0x65 => .ok (.loadRegisters w.x)
  | _ => .error (.unknownWord w)

def decode (w : Word) : Except Fault Instruction :=
  match w.family.val with
  | 0x0 =>
    match w.toNat with
    | 0x00E0 => .ok .clear
    | 0x00EE => .ok .ret
    | _ => .error (.unknownWord w)
  | 0x1 => .ok (.jump w.nnn)
  | 0x2 => .ok (.call w.nnn)
  | 0x3 => .ok (.skipIfByte w.x w.low)
  | 0x4 => .ok (.skipUnlessByte w.x w.low)
  | 0x5 => if w.n.val = 0 then .ok (.skipIfSame w.x w.y) else .error (.unknownWord w)
  | 0x6 => .ok (.loadByte w.x w.low)
  | 0x7 => .ok (.addByte w.x w.low)
  | 0x8 => decodeArithmetic w
  | 0x9 => if w.n.val = 0 then .ok (.skipUnlessSame w.x w.y) else .error (.unknownWord w)
  | 0xA => .ok (.loadIndex w.nnn)
  | 0xB => .ok (.jumpOffset w.nnn)
  | 0xC => .ok (.random w.x w.low)
  | 0xD => .ok (.draw w.x w.y (UInt8.ofNat w.n.val))
  | 0xE =>
    match w.low.toNat with
    | 0x9E => .ok (.skipIfHeld w.x)
    | 0xA1 => .ok (.skipUnlessHeld w.x)
    | _ => .error (.unknownWord w)
  | _ => decodeTransfer w

end Chip8.Instruction
