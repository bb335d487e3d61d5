import Chip8.Limits

/-!
# Machine words

Instructions and addresses are 16 bits wide. This module holds the fields that an instruction word
is cut into, and how a word is put together from two bytes of memory, the high byte first.
-/
namespace Chip8

/-- A 16-bit word: an instruction or an address. -/
abbrev Word := UInt16

/-- The number of a general register. -/
abbrev Register := Fin 16

/-- Registers can be written as numerals. -/
instance neZero_registers : @NeZero Nat Zero.ofOfNat0 16 := ⟨Nat.succ_ne_zero 15⟩

/-- The contents of V0 to VF. -/
abbrev Registers := Vector UInt8 16

namespace Word

def ofBytes (high low : UInt8) : Word := UInt16.ofNat (high.toNat * 256 + low.toNat)

def high (w : Word) : UInt8 := UInt8.ofNat (w.toNat / 256)

/-- The low byte, an instruction's `kk`. -/
def low (w : Word) : UInt8 := UInt8.ofNat w.toNat

/-- The first hexadecimal digit, which selects the family of an instruction. -/
def family (w : Word) : Fin 16 := ⟨w.toNat / 4096, by have := w.toNat_lt; omega⟩

def x (w : Word) : Register := ⟨w.toNat / 256 % 16, by omega⟩

def y (w : Word) : Register := ⟨w.toNat / 16 % 16, by omega⟩

def n (w : Word) : Fin 16 := ⟨w.toNat % 16, by omega⟩

/-- The last three hexadecimal digits, an address. -/
def nnn (w : Word) : Word := UInt16.ofNat (w.toNat % 4096)

/-- The four hexadecimal digits, the most significant first. -/
def nibbles (w : Word) : List (Fin 16) := [w.family, w.x, w.y, w.n]

theorem toNat_ofBytes (high low : UInt8) :
    (ofBytes high low).toNat = high.toNat * 256 + low.toNat := by
  have := high.toNat_lt
  have := low.toNat_lt
  simp only [ofBytes, UInt16.toNat_ofNat']
  omega

theorem toNat_high (w : Word) : w.high.toNat = w.toNat / 256 := by
  have := w.toNat_lt
  simp only [high, UInt8.toNat_ofNat']
  omega

theorem toNat_low (w : Word) : w.low.toNat = w.toNat % 256 := by
  simp only [low, UInt8.toNat_ofNat']

theorem toNat_nnn (w : Word) : w.nnn.toNat = w.toNat % 4096 := by
  simp only [nnn, UInt16.toNat_ofNat']
  omega

theorem ofBytes_high_low (w : Word) : ofBytes w.high w.low = w := by
  apply UInt16.toNat.inj
  rw [toNat_ofBytes, toNat_high, toNat_low]
  omega

/-- The digits of a word, weighted by their places, are the word. -/
theorem toNat_eq_digits (w : Word) :
    w.toNat = w.family.val * 4096 + w.x.val * 256 + w.y.val * 16 + w.n.val := by
  have := w.toNat_lt
  simp only [family, x, y, n]
  omega

end Word
end Chip8
