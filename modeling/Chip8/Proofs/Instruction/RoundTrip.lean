import Chip8.Instruction.Encoding
import Chip8.Proofs.Instruction.Pattern

/-!
# Decoding undoes encoding

A word is built from its fields in three formats: a digit and an address, two digits and a byte, or
four digits. For each format the fields can be read back, and a word with the right first digit is
built from its own fields. From the two directions `decode_eq_ok_iff` says that decoding gives an
instruction for just the words that encode it, whatever stands in a digit that is not used, and
`decode_of_not_encodes` that every other word is refused.
-/
namespace Chip8.Instruction

variable {w : Word} {ins : Instruction} {family n : Nat}

theorem withAddress_fields {addr : Word} (hf : family < 16) (ha : addr.toNat < 4096) :
    (withAddress family addr).family.val = family ∧ (withAddress family addr).nnn = addr := by
  have hw : (withAddress family addr).toNat = family * 4096 + addr.toNat := by
    rw [withAddress, UInt16.toNat_ofNat']
    omega
  constructor
  · simp only [Word.family, hw]
    omega
  · apply UInt16.toNat.inj
    rw [Word.toNat_nnn, hw]
    omega

theorem withByte_fields {kk : Nat} (hf : family < 16) (hk : kk < 256) (x : Register) :
    (withByte family x kk).family.val = family ∧ (withByte family x kk).x = x ∧
      (withByte family x kk).low = UInt8.ofNat kk := by
  have hx := x.isLt
  have hw : (withByte family x kk).toNat = family * 4096 + x.val * 256 + kk := by
    rw [withByte, UInt16.toNat_ofNat']
    omega
  refine ⟨?_, Fin.ext ?_, UInt8.toNat.inj ?_⟩
  · simp only [Word.family, hw]
    omega
  · simp only [Word.x, hw]
    omega
  · rw [Word.toNat_low, hw, UInt8.toNat_ofNat']
    omega

theorem digits_fields (hf : family < 16) (hn : n < 16) (x y : Register) :
    (digits family x y n).family.val = family ∧ (digits family x y n).x = x ∧
      (digits family x y n).y = y ∧ (digits family x y n).n.val = n := by
  have hx := x.isLt
  have hy := y.isLt
  have hw : (digits family x y n).toNat = family * 4096 + x.val * 256 + y.val * 16 + n := by
    rw [digits, UInt16.toNat_ofNat']
    omega
  refine ⟨?_, Fin.ext ?_, Fin.ext ?_, ?_⟩
  · simp only [Word.family, hw]
    omega
  · simp only [Word.x, hw]
    omega
  · simp only [Word.y, hw]
    omega
  · simp only [Word.n, hw]
    omega

/-- Any way to write an instruction is decoded to it. -/
theorem decode_encode (h : ins.WellFormed) (spare : Fin 16) :
    decode (ins.encode spare) = .ok ins := by
  cases ins with
  | clear | ret => cbv
  | jump addr | call addr | loadIndex addr | jumpOffset addr =>
    have ha : addr.toNat < 4096 := h
    simp (disch := omega) only [encode, decode, withAddress_fields]
  | skipIfByte x kk | skipUnlessByte x kk | loadByte x kk | addByte x kk | random x kk =>
    have hk := kk.toNat_lt
    simp (disch := omega) only [encode, decode, withByte_fields, UInt8.ofNat_toNat]
  | skipIfSame | skipUnlessSame =>
    simp (disch := omega) only [encode, decode, digits_fields, if_true]
  | draw x y n =>
    have hn : n.toNat < 16 := h
    simp (disch := omega) only [encode, decode, digits_fields, UInt8.ofNat_toNat]
  | skipIfHeld | skipUnlessHeld =>
    simp (disch := omega) only [encode, decode, withByte_fields]
    rfl
  | copy | or | and | xor | add | subtract | shiftRight | subtractFrom | shiftLeft =>
    simp (disch := omega) only [encode, decode, decodeArithmetic, digits_fields]
  | readDelay | awaitKey | setDelay | setSound | addIndex | loadGlyph | storeDecimal
  | storeRegisters | loadRegisters =>
    simp (disch := omega) only [encode, decode, decodeTransfer, withByte_fields]
    rfl

theorem withAddress_self (hf : w.family.val = family) : withAddress family w.nnn = w := by
  have := w.toNat_lt
  apply UInt16.toNat.inj
  rw [withAddress, UInt16.toNat_ofNat', Word.toNat_nnn, ← hf]
  simp only [Word.family]
  omega

theorem withByte_self {kk : Nat} (hf : w.family.val = family) (hk : w.low.toNat = kk) :
    withByte family w.x kk = w := by
  have := w.toNat_lt
  apply UInt16.toNat.inj
  rw [withByte, UInt16.toNat_ofNat', ← hk, Word.toNat_low, ← hf]
  simp only [Word.family, Word.x]
  omega

theorem digits_self (hf : w.family.val = family) (hn : w.n.val = n) :
    digits family w.x w.y n = w := by
  have := w.toNat_lt
  have hdigits := w.toNat_eq_digits
  apply UInt16.toNat.inj
  rw [digits, UInt16.toNat_ofNat', ← hf, ← hn, ← hdigits]
  omega

theorem encode_of_decodeArithmetic (hf : w.family.val = 0x8) (h : decodeArithmetic w = .ok ins) :
    ins.encode w.y = w := by
  unfold decodeArithmetic at h
  split at h <;> cases h <;> exact digits_self hf (by assumption)

theorem encode_of_decodeTransfer (hf : w.family.val = 0xF) (h : decodeTransfer w = .ok ins)
    (spare : Fin 16) : ins.encode spare = w := by
  unfold decodeTransfer at h
  split at h <;> cases h <;> exact withByte_self hf (by assumption)

/-- A word that gives an instruction is written from it; its third digit is the one to spare. -/
theorem encode_of_decode (h : decode w = .ok ins) : ins.encode w.y = w := by
  unfold decode at h
  split at h
  case h_1 =>
    split at h <;> cases h <;> next hw => exact UInt16.toNat.inj hw.symm
  case h_2 hf | h_3 hf | h_11 hf | h_12 hf => cases h; exact withAddress_self hf
  case h_6 hf | h_10 hf =>
    split at h
    · next hn => cases h; exact digits_self hf hn
    · contradiction
  case h_9 hf => exact encode_of_decodeArithmetic hf h
  case h_14 hf =>
    cases h
    exact digits_self hf (toNat_rows w).symm
  case h_15 hf =>
    split at h <;> cases h <;> exact withByte_self hf (by assumption)
  case h_16 =>
    have hf : w.family.val = 0xF := by
      have hlt := w.family.isLt
      grind
    exact encode_of_decodeTransfer hf h w.y
  all_goals next hf => cases h; exact withByte_self hf rfl

/-- Decoding gives an instruction for just the words that are ways to write it. -/
theorem decode_eq_ok_iff : decode w = .ok ins ↔ Encodes w ins := by
  constructor
  · intro h
    exact ⟨wellFormed_of_decode h, w.y, (encode_of_decode h).symm⟩
  · rintro ⟨hwf, spare, rfl⟩
    exact decode_encode hwf spare

/-- A word that is no way to write an instruction is refused. -/
theorem decode_of_not_encodes (h : ∀ ins, ¬ Encodes w ins) :
    decode w = .error (.unknownWord w) := by
  cases hd : decode w with
  | error fault => rw [fault_of_decode hd]
  | ok ins => exact absurd (decode_eq_ok_iff.mp hd) (h ins)

end Chip8.Instruction
