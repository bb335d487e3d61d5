import Chip8.Instruction.Basic

/-!
# Instructions in words

An instruction is shown by its name and, between braces, its operands in the order x, y, then the
last one, each with its label and in decimal.
-/
namespace Chip8.Instruction

/-- The name that traces give an instruction, and its labelled operands. -/
def describe : Instruction → String × List (String × Nat)
  | clear => ("Clear", [])
  | ret => ("Return", [])
  | jump addr => ("Jump", [("addr", addr.toNat)])
  | call addr => ("Call", [("addr", addr.toNat)])
  | skipIfByte x kk => ("SkipIfEqual", [("x", x), ("kk", kk.toNat)])
  | skipUnlessByte x kk => ("SkipIfNotEqual", [("x", x), ("kk", kk.toNat)])
  | skipIfSame x y => ("SkipIfRegistersEqual", [("x", x), ("y", y)])
  | loadByte x kk => ("Load", [("x", x), ("kk", kk.toNat)])
  | addByte x kk => ("Add", [("x", x), ("kk", kk.toNat)])
  | copy x y => ("Move", [("x", x), ("y", y)])
  | or x y => ("Or", [("x", x), ("y", y)])
  | and x y => ("And", [("x", x), ("y", y)])
  | xor x y => ("Xor", [("x", x), ("y", y)])
  | add x y => ("AddRegisters", [("x", x), ("y", y)])
  | subtract x y => ("Sub", [("x", x), ("y", y)])
  | shiftRight x => ("ShiftRight", [("x", x)])
  | subtractFrom x y => ("SubReversed", [("x", x), ("y", y)])
  | shiftLeft x => ("ShiftLeft", [("x", x)])
  | skipUnlessSame x y => ("SkipIfRegistersNotEqual", [("x", x), ("y", y)])
  | loadIndex addr => ("LoadIndex", [("addr", addr.toNat)])
  | jumpOffset addr => ("JumpOffset", [("addr", addr.toNat)])
  | random x kk => ("Random", [("x", x), ("kk", kk.toNat)])
  | draw x y n => ("Draw", [("x", x), ("y", y), ("n", n.toNat)])
  | skipIfHeld x => ("SkipIfPressed", [("x", x)])
  | skipUnlessHeld x => ("SkipIfNotPressed", [("x", x)])
  | readDelay x => ("ReadDelay", [("x", x)])
  | awaitKey x => ("WaitForKey", [("x", x)])
  | setDelay x => ("SetDelay", [("x", x)])
  | setSound x => ("SetSound", [("x", x)])
  | addIndex x => ("AddIndex", [("x", x)])
  | loadGlyph x => ("LoadGlyph", [("x", x)])
  | storeDecimal x => ("StoreBcd", [("x", x)])
  | storeRegisters x => ("StoreRegisters", [("x", x)])
  | loadRegisters x => ("LoadRegisters", [("x", x)])

def operandText (operand : String × Nat) : String := operand.1 ++ ": " ++ toString operand.2

/-- The text of an instruction: its name alone if it has no operands. -/
def text (ins : Instruction) : String :=
  match ins.describe with
  | (name, []) => name
  | (name, operands) => name ++ " \x7b " ++ ", ".intercalate (operands.map operandText) ++ " \x7d"

end Chip8.Instruction
