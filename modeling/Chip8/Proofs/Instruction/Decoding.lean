import Chip8.Instruction.Decode

/-!
# What decoding can give

Whatever a word is decoded to fits the fields of a word again: addresses stay below 4096 and row
counts below 16. That decoding is right about the word is not said here.
-/
namespace Chip8.Instruction

theorem toNat_rows (w : Word) : (UInt8.ofNat w.n.val).toNat = w.n.val := by
  have hn := w.n.isLt
  rw [UInt8.toNat_ofNat']
  omega

theorem wellFormed_of_decodeArithmetic {w : Word} {ins : Instruction}
    (h : decodeArithmetic w = .ok ins) : ins.WellFormed := by
  unfold decodeArithmetic at h
  split at h <;> cases h <;> trivial

theorem wellFormed_of_decodeTransfer {w : Word} {ins : Instruction}
    (h : decodeTransfer w = .ok ins) : ins.WellFormed := by
  unfold decodeTransfer at h
  split at h <;> cases h <;> trivial

theorem wellFormed_of_decode {w : Word} {ins : Instruction} (h : decode w = .ok ins) :
    ins.WellFormed := by
  have haddr : w.nnn.toNat < 4096 := by
    rw [Word.toNat_nnn]
    exact Nat.mod_lt _ (by decide)
  have hrows : (UInt8.ofNat w.n.val).toNat < 16 := by
    rw [toNat_rows]
    exact w.n.isLt
  unfold decode at h
  split at h
  -- the families 0, 5, 9 and E have an inner choice; 8 and F are functions of their own
  case h_1 | h_6 | h_10 | h_15 => split at h <;> cases h <;> trivial
  case h_2 | h_3 | h_11 | h_12 => cases h; exact haddr
  case h_9 => exact wellFormed_of_decodeArithmetic h
  case h_14 => cases h; exact hrows
  case h_16 => exact wellFormed_of_decodeTransfer h
  all_goals cases h; trivial

end Chip8.Instruction
