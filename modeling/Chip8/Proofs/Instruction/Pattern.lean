import Chip8.Proofs.Instruction.Decoding

/-!
# The words that are instructions

Every instruction has a pattern: its words begin with a given digit, and each of the other three
digits is given or left to an operand. Decoding goes by these patterns: a word is refused just when
it has none of them, and the instruction that it gives otherwise has a pattern of the word. Which
operands it gets is said for the instructions that can be refused, and for no others.
-/
namespace Chip8

/-- The hexadecimal digits of some words, the most significant first; none where any digit goes. -/
structure Pattern where
  family : Nat
  x : Option Nat
  y : Option Nat
  n : Option Nat
  deriving DecidableEq, Repr

/-- The word has the digits that the pattern gives. -/
def Pattern.Fits (p : Pattern) (w : Word) : Prop :=
  w.family.val = p.family ∧ (∀ digit ∈ p.x, w.x.val = digit) ∧
    (∀ digit ∈ p.y, w.y.val = digit) ∧ ∀ digit ∈ p.n, w.n.val = digit

instance (p : Pattern) (w : Word) : Decidable (p.Fits w) :=
  inferInstanceAs (Decidable (_ ∧ _ ∧ _ ∧ _))

/-- A word's low byte is made of its last two digits. -/
theorem Word.toNat_low_eq_digits (w : Word) : w.low.toNat = w.y.val * 16 + w.n.val := by
  rw [Word.toNat_low]
  simp only [Word.y, Word.n]
  omega

namespace Instruction

/-- The pattern of the words that stand for an instruction, whatever its operands. -/
def pattern : Instruction → Pattern
  | clear => ⟨0x0, some 0x0, some 0xE, some 0x0⟩
  | ret => ⟨0x0, some 0x0, some 0xE, some 0xE⟩
  | jump _ => ⟨0x1, none, none, none⟩
  | call _ => ⟨0x2, none, none, none⟩
  | skipIfByte _ _ => ⟨0x3, none, none, none⟩
  | skipUnlessByte _ _ => ⟨0x4, none, none, none⟩
  | skipIfSame _ _ => ⟨0x5, none, none, some 0x0⟩
  | loadByte _ _ => ⟨0x6, none, none, none⟩
  | addByte _ _ => ⟨0x7, none, none, none⟩
  | copy _ _ => ⟨0x8, none, none, some 0x0⟩
  | or _ _ => ⟨0x8, none, none, some 0x1⟩
  | and _ _ => ⟨0x8, none, none, some 0x2⟩
  | xor _ _ => ⟨0x8, none, none, some 0x3⟩
  | add _ _ => ⟨0x8, none, none, some 0x4⟩
  | subtract _ _ => ⟨0x8, none, none, some 0x5⟩
  | shiftRight _ => ⟨0x8, none, none, some 0x6⟩
  | subtractFrom _ _ => ⟨0x8, none, none, some 0x7⟩
  | shiftLeft _ => ⟨0x8, none, none, some 0xE⟩
  | skipUnlessSame _ _ => ⟨0x9, none, none, some 0x0⟩
  | loadIndex _ => ⟨0xA, none, none, none⟩
  | jumpOffset _ => ⟨0xB, none, none, none⟩
  | random _ _ => ⟨0xC, none, none, none⟩
  | draw _ _ _ => ⟨0xD, none, none, none⟩
  | skipIfHeld _ => ⟨0xE, none, some 0x9, some 0xE⟩
  | skipUnlessHeld _ => ⟨0xE, none, some 0xA, some 0x1⟩
  | readDelay _ => ⟨0xF, none, some 0x0, some 0x7⟩
  | awaitKey _ => ⟨0xF, none, some 0x0, some 0xA⟩
  | setDelay _ => ⟨0xF, none, some 0x1, some 0x5⟩
  | setSound _ => ⟨0xF, none, some 0x1, some 0x8⟩
  | addIndex _ => ⟨0xF, none, some 0x1, some 0xE⟩
  | loadGlyph _ => ⟨0xF, none, some 0x2, some 0x9⟩
  | storeDecimal _ => ⟨0xF, none, some 0x3, some 0x3⟩
  | storeRegisters _ => ⟨0xF, none, some 0x5, some 0x5⟩
  | loadRegisters _ => ⟨0xF, none, some 0x6, some 0x5⟩

variable {w : Word} {ins : Instruction}

theorem fits_family_iff {family : Nat} :
    Pattern.Fits ⟨family, none, none, none⟩ w ↔ w.family.val = family := by
  simp [Pattern.Fits]

theorem fits_last_iff {family digit : Nat} :
    Pattern.Fits ⟨family, none, none, some digit⟩ w ↔
      w.family.val = family ∧ w.n.val = digit := by
  simp [Pattern.Fits]

theorem fits_low_iff {family y n : Nat} (hn : n < 16) :
    Pattern.Fits ⟨family, none, some y, some n⟩ w ↔
      w.family.val = family ∧ w.low.toNat = y * 16 + n := by
  have hdigits := w.toNat_low_eq_digits
  have hlast := w.n.isLt
  simp [Pattern.Fits]
  omega

theorem fits_word_iff {x y n : Nat} (hx : x < 16) (hy : y < 16) (hn : n < 16) :
    Pattern.Fits ⟨0, some x, some y, some n⟩ w ↔ w.toNat = x * 256 + y * 16 + n := by
  have hdigits := w.toNat_eq_digits
  have := w.x.isLt
  have := w.y.isLt
  have := w.n.isLt
  simp [Pattern.Fits]
  omega

theorem fits_of_decodeArithmetic (hf : w.family.val = 0x8) (h : decodeArithmetic w = .ok ins) :
    ins.pattern.Fits w := by
  unfold decodeArithmetic at h
  split at h <;> cases h <;> exact fits_last_iff.mpr ⟨hf, by assumption⟩

theorem fits_of_decodeTransfer (hf : w.family.val = 0xF) (h : decodeTransfer w = .ok ins) :
    ins.pattern.Fits w := by
  unfold decodeTransfer at h
  split at h <;> cases h <;> exact (fits_low_iff (by decide)).mpr ⟨hf, by assumption⟩

/-- The instruction that a word gives has a pattern of the word. -/
theorem fits_of_decode (h : decode w = .ok ins) : ins.pattern.Fits w := by
  unfold decode at h
  split at h
  case h_1 =>
    split at h <;> cases h <;>
      exact (fits_word_iff (by decide) (by decide) (by decide)).mpr (by assumption)
  case h_6 | h_10 =>
    split at h
    · next hf hn => cases h; exact fits_last_iff.mpr ⟨hf, hn⟩
    · contradiction
  case h_9 hf => exact fits_of_decodeArithmetic hf h
  case h_15 hf =>
    split at h <;> cases h <;> exact (fits_low_iff (by decide)).mpr ⟨hf, by assumption⟩
  case h_16 =>
    have hf : w.family.val = 0xF := by
      have hlt := w.family.isLt
      grind
    exact fits_of_decodeTransfer hf h
  all_goals next hf => cases h; exact fits_family_iff.mpr hf

/-- A word that has a pattern of an instruction gives an instruction. -/
theorem decodes_of_fits (h : ins.pattern.Fits w) : ∃ decoded, decode w = .ok decoded := by
  cases ins with
  | clear | ret =>
    have hw := (fits_word_iff (by decide) (by decide) (by decide)).mp h
    simp only [decode, h.1, pattern, hw]
    exact ⟨_, rfl⟩
  | skipIfSame | skipUnlessSame =>
    obtain ⟨hf, hn⟩ := fits_last_iff.mp h
    simp only [decode, hf, hn]
    exact ⟨_, rfl⟩
  | copy | or | and | xor | add | subtract | shiftRight | subtractFrom | shiftLeft =>
    obtain ⟨hf, hn⟩ := fits_last_iff.mp h
    simp only [decode, decodeArithmetic, hf, hn]
    exact ⟨_, rfl⟩
  | skipIfHeld | skipUnlessHeld =>
    obtain ⟨hf, hlow⟩ := (fits_low_iff (by decide)).mp h
    simp only [decode, hf, hlow]
    exact ⟨_, rfl⟩
  | readDelay | awaitKey | setDelay | setSound | addIndex | loadGlyph | storeDecimal
  | storeRegisters | loadRegisters =>
    obtain ⟨hf, hlow⟩ := (fits_low_iff (by decide)).mp h
    simp only [decode, decodeTransfer, hf, hlow]
    exact ⟨_, rfl⟩
  | _ =>
    have hf := fits_family_iff.mp h
    simp only [decode, hf]
    exact ⟨_, rfl⟩

theorem fault_of_decode {fault : Fault} (h : decode w = .error fault) :
    fault = .unknownWord w := by
  unfold decode decodeArithmetic decodeTransfer at h
  repeat' split at h
  all_goals cases h
  all_goals rfl

/-- A word is refused just when it has no pattern, and the fault names the whole word. -/
theorem decode_eq_error_iff {fault : Fault} :
    decode w = .error fault ↔
      fault = .unknownWord w ∧ ∀ ins : Instruction, ¬ ins.pattern.Fits w := by
  constructor
  · intro h
    refine ⟨fault_of_decode h, fun ins hfits => ?_⟩
    obtain ⟨decoded, hd⟩ := decodes_of_fits hfits
    rw [h] at hd
    contradiction
  · rintro ⟨rfl, hnone⟩
    cases hd : decode w with
    | error fault => rw [fault_of_decode hd]
    | ok ins => exact absurd (fits_of_decode hd) (hnone ins)

end Instruction
end Chip8
