import Chip8.Instruction.Basic

/-!
# Encoding

The word that an instruction is written as, and the relation between words and instructions that
it gives. The two shifts have a digit to spare; `encode` takes it as an argument, so that every
word that stands for a shift is reached.
-/
namespace Chip8.Instruction

/-- The word with the given digits, the most significant first. -/
def digits (a b c d : Nat) : Word := UInt16.ofNat (a * 4096 + b * 256 + c * 16 + d)

def withAddress (family : Nat) (addr : Word) : Word := UInt16.ofNat (family * 4096 + addr.toNat)

def withByte (family : Nat) (x : Register) (kk : Nat) : Word :=
  UInt16.ofNat (family * 4096 + x.val * 256 + kk)

/-- The word for an instruction; `spare` is the third digit where that digit is not used. -/
def encode (spare : Fin 16) : Instruction → Word
  | clear => digits 0x0 0x0 0xE 0x0
  | ret => digits 0x0 0x0 0xE 0xE
  | jump addr => withAddress 0x1 addr
  | call addr => withAddress 0x2 addr
  | skipIfByte x kk => withByte 0x3 x kk.toNat
  | skipUnlessByte x kk => withByte 0x4 x kk.toNat
  | skipIfSame x y => digits 0x5 x y 0x0
  | loadByte x kk => withByte 0x6 x kk.toNat
  | addByte x kk => withByte 0x7 x kk.toNat
  | copy x y => digits 0x8 x y 0x0
  | or x y => digits 0x8 x y 0x1
  | and x y => digits 0x8 x y 0x2
  | xor x y => digits 0x8 x y 0x3
  | add x y => digits 0x8 x y 0x4
  | subtract x y => digits 0x8 x y 0x5
  | shiftRight x => digits 0x8 x spare 0x6
  | subtractFrom x y => digits 0x8 x y 0x7
  | shiftLeft x => digits 0x8 x spare 0xE
  | skipUnlessSame x y => digits 0x9 x y 0x0
  | loadIndex addr => withAddress 0xA addr
  | jumpOffset addr => withAddress 0xB addr
  | random x kk => withByte 0xC x kk.toNat
  | draw x y n => digits 0xD x y n.toNat
  | skipIfHeld x => withByte 0xE x 0x9E
  | skipUnlessHeld x => withByte 0xE x 0xA1
  | readDelay x => withByte 0xF x 0x07
  | awaitKey x => withByte 0xF x 0x0A
  | setDelay x => withByte 0xF x 0x15
  | setSound x => withByte 0xF x 0x18
  | addIndex x => withByte 0xF x 0x1E
  | loadGlyph x => withByte 0xF x 0x29
  | storeDecimal x => withByte 0xF x 0x33
  | storeRegisters x => withByte 0xF x 0x55
  | loadRegisters x => withByte 0xF x 0x65

/-- The word is one of the ways to write the instruction. -/
def Encodes (w : Word) (ins : Instruction) : Prop :=
  ins.WellFormed ∧ ∃ spare, w = ins.encode spare

/-- The bytes of a program, each word with its high byte first. -/
def assemble (words : List Word) : List UInt8 := words.flatMap fun w => [w.high, w.low]

end Chip8.Instruction
