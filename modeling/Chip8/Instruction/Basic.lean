import Chip8.Word

/-!
# Instructions

One constructor per instruction of the machine, each with the operands it uses. Register numbers
are below 16 by their type. Addresses and row counts are given the width of a word and of a byte:
an instruction need not come from a word, and `WellFormed` says which ones can.
-/
namespace Chip8

inductive Instruction where
  | clear
  /-- Go on after the call that was made last. -/
  | ret
  | jump (addr : Word)
  | call (addr : Word)
  | skipIfByte (x : Register) (kk : UInt8)
  | skipUnlessByte (x : Register) (kk : UInt8)
  | skipIfSame (x y : Register)
  | loadByte (x : Register) (kk : UInt8)
  /-- Vx grows by `kk`; no flag is set. -/
  | addByte (x : Register) (kk : UInt8)
  | copy (x y : Register)
  | or (x y : Register)
  | and (x y : Register)
  | xor (x y : Register)
  /-- Vx grows by Vy; the flag is the carry. -/
  | add (x y : Register)
  /-- Vx shrinks by Vy; the flag says that Vx was larger. -/
  | subtract (x y : Register)
  /-- Vx is halved; the flag is the bit that falls out. -/
  | shiftRight (x : Register)
  /-- Vx becomes Vy less Vx; the flag says that Vy was larger. -/
  | subtractFrom (x y : Register)
  /-- Vx is doubled; the flag is the bit that falls out. -/
  | shiftLeft (x : Register)
  | skipUnlessSame (x y : Register)
  | loadIndex (addr : Word)
  | jumpOffset (addr : Word)
  /-- Vx becomes `kk` plus a random byte. -/
  | random (x : Register) (kk : UInt8)
  /-- Draw `n` bytes from the index on, with the top left corner at Vx, Vy. -/
  | draw (x y : Register) (n : UInt8)
  /-- Skip if the key in Vx is down. -/
  | skipIfHeld (x : Register)
  | skipUnlessHeld (x : Register)
  | readDelay (x : Register)
  /-- Stay here until there is a key for Vx. -/
  | awaitKey (x : Register)
  | setDelay (x : Register)
  | setSound (x : Register)
  /-- The index grows by Vx. -/
  | addIndex (x : Register)
  /-- The index becomes the address of the font character for Vx. -/
  | loadGlyph (x : Register)
  /-- The three decimal digits of Vx are stored from the index on. -/
  | storeDecimal (x : Register)
  /-- V0 to Vx are stored from the index on. -/
  | storeRegisters (x : Register)
  | loadRegisters (x : Register)
  deriving DecidableEq, Repr

namespace Instruction

/-- The operands fit the fields of a word: addresses have 12 bits, row counts 4. -/
def WellFormed : Instruction → Prop
  | jump addr | call addr | loadIndex addr | jumpOffset addr => addr.toNat < 4096
  | draw _ _ n => n.toNat < 16
  | _ => True

instance (ins : Instruction) : Decidable ins.WellFormed := by
  cases ins <;> unfold WellFormed <;> infer_instance

end Instruction
end Chip8
