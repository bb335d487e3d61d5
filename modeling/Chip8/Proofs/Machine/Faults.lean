import Chip8.Proofs.Instruction.Pattern
import Chip8.Proofs.Machine.Refusal

/-!
# When a step fails

`Raises` says for each fault when a step ends with it, in terms of the word at the program counter,
the depth of the call stack and the index. A step fails with just these faults and succeeds when
there is none; in particular loading and devices have no part in it. What a step leaves behind is
not said here.
-/
namespace Chip8

/-- The instruction that the word stands for reads or writes `len` bytes from the index on. -/
def Word.Reaches (w : Word) (len : Nat) : Prop :=
  (w.family.val = 0xD ∧ len = w.n.val) ∨
    (w.family.val = 0xF ∧ w.low.toNat = 0x33 ∧ len = 3) ∨
    (w.family.val = 0xF ∧ (w.low.toNat = 0x55 ∨ w.low.toNat = 0x65) ∧ len = w.x.val + 1)

namespace Instruction

/-- How many bytes the instruction reads or writes from the index on, if it does. -/
def reach? : Instruction → Option Nat
  | draw _ _ n => some n.toNat
  | storeDecimal _ => some 3
  | storeRegisters x | loadRegisters x => some (x + 1)
  | _ => none

variable {w : Word} {ins : Instruction} {len : Nat}

theorem decode_of_call (h : w.family.val = 0x2) : decode w = .ok (.call w.nnn) := by
  simp only [decode, h]

theorem decode_of_draw (h : w.family.val = 0xD) :
    decode w = .ok (.draw w.x w.y (UInt8.ofNat w.n.val)) := by
  simp only [decode, h]

theorem decode_of_transfer (h : w.family.val = 0xF) : decode w = decodeTransfer w := by
  simp only [decode, h]

/-- A word reaches as far as its instruction does. -/
theorem reach?_of_reaches (h : w.Reaches len) (hd : decode w = .ok ins) :
    ins.reach? = some len := by
  rcases h with ⟨hf, rfl⟩ | ⟨hf, hlow, rfl⟩ | ⟨hf, hlow | hlow, rfl⟩
  · rw [decode_of_draw hf] at hd
    cases hd
    rw [reach?, toNat_rows]
  all_goals
    rw [decode_of_transfer hf] at hd
    simp only [decodeTransfer, hlow] at hd
    cases hd
    rfl

theorem decodes_of_reaches (h : w.Reaches len) : ∃ ins, decode w = .ok ins := by
  rcases h with ⟨hf, -⟩ | ⟨hf, hlow, -⟩ | ⟨hf, hlow | hlow, -⟩
  · exact ⟨_, decode_of_draw hf⟩
  all_goals
    rw [decode_of_transfer hf]
    simp only [decodeTransfer, hlow]
    exact ⟨_, rfl⟩

theorem reaches_of_reach? (hd : decode w = .ok ins) (h : ins.reach? = some len) :
    w.Reaches len := by
  have hfits := fits_of_decode hd
  cases ins with
  | draw x y n =>
    have hf := fits_family_iff.mp hfits
    rw [decode_of_draw hf] at hd
    cases hd
    rw [reach?, toNat_rows] at h
    exact .inl ⟨hf, (Option.some.inj h).symm⟩
  | storeDecimal x =>
    obtain ⟨hf, hlow⟩ := (fits_low_iff (by decide)).mp hfits
    exact .inr (.inl ⟨hf, hlow, (Option.some.inj h).symm⟩)
  | storeRegisters x =>
    obtain ⟨hf, hlow⟩ := (fits_low_iff (by decide)).mp hfits
    rw [decode_of_transfer hf] at hd
    simp only [decodeTransfer, hlow] at hd
    cases hd
    exact .inr (.inr ⟨hf, .inl hlow, (Option.some.inj h).symm⟩)
  | loadRegisters x =>
    obtain ⟨hf, hlow⟩ := (fits_low_iff (by decide)).mp hfits
    rw [decode_of_transfer hf] at hd
    simp only [decodeTransfer, hlow] at hd
    cases hd
    exact .inr (.inr ⟨hf, .inr hlow, (Option.some.inj h).symm⟩)
  | _ => contradiction

end Instruction

namespace Machine

/-- The word at the program counter, its high byte first, if all of it lies in memory. -/
def Reads (m : Machine) (w : Word) : Prop :=
  ∃ h : m.pc.toNat < 0xFFF,
    w.toNat = 256 * m.memory[m.pc.toNat].toNat + m.memory[m.pc.toNat + 1].toNat

instance (m : Machine) (w : Word) : Decidable (m.Reads w) :=
  inferInstanceAs (Decidable (∃ _ : m.pc.toNat < 0xFFF, _))

/-- When a step ends with a fault. -/
def Raises (m : Machine) : Fault → Prop
  | .pcOutOfRange pc => pc = m.pc ∧ 0xFFF ≤ m.pc.toNat
  | .unknownWord w => m.Reads w ∧ ∀ ins : Instruction, ¬ ins.pattern.Fits w
  | .stackUnderflow pc => pc = m.pc ∧ m.Reads 0x00EE ∧ m.calls.depth.val = 0
  | .stackOverflow pc =>
    pc = m.pc ∧ (∃ w, m.Reads w ∧ w.family.val = 0x2) ∧ m.calls.depth.val = 15
  | .addressOutOfRange addr len =>
    addr = m.index.toNat ∧ (∃ w, m.Reads w ∧ w.Reaches len) ∧ 4096 < addr + len
  | .romTooLarge _ _ | .device _ => False

variable {m : Machine} {w : Word} {ins : Instruction} {fault : Fault}

theorem reads_iff : m.Reads w ↔ m.memory.wordAt? m.pc = .ok w := by
  unfold Reads Memory.wordAt?
  constructor
  · rintro ⟨hpc, hw⟩
    rw [dif_pos (by omega)]
    congr 1
    apply UInt16.toNat.inj
    rw [Word.toNat_ofBytes, hw, Nat.mul_comm]
  · intro h
    split at h
    · next hpc =>
      obtain rfl := Except.ok.inj h
      exact ⟨by omega, by rw [Word.toNat_ofBytes, Nat.mul_comm]⟩
    · contradiction

theorem reads_of_in (m : Machine) (h : m.pc.toNat < 0xFFF) : ∃ w, m.Reads w :=
  ⟨_, reads_iff.mpr (dif_pos (by omega))⟩

theorem refusal?_of_reach {len : Nat} (h : ins.reach? = some len) :
    m.refusal? ins = m.reachRefusal? len := by
  cases ins with
  | draw | storeDecimal | storeRegisters | loadRegisters => cases h; rfl
  | _ => contradiction

theorem reachRefusal?_eq_some_iff {len : Nat} :
    m.reachRefusal? len = some fault ↔
      fault = .addressOutOfRange m.index.toNat len ∧ 4096 < m.index.toNat + len := by
  unfold reachRefusal?
  split
  · next hfits => simp; omega
  · next hfits => simp [eq_comm]; omega

/-- A refusal is about the call stack or about the bytes that the instruction reaches. -/
theorem refusal_cases (h : m.refusal? ins = some fault) :
    (ins = .ret ∧ m.calls.depth.val = 0 ∧ fault = .stackUnderflow m.pc) ∨
      (∃ addr, ins = .call addr ∧ m.calls.depth.val = 15 ∧ fault = .stackOverflow m.pc) ∨
      ∃ len, ins.reach? = some len ∧ fault = .addressOutOfRange m.index.toNat len ∧
        4096 < m.index.toNat + len := by
  cases ins with
  | ret =>
    rw [refusal?] at h
    split at h
    · next hlive =>
      rw [← List.length_eq_zero_iff, CallStack.length_live] at hlive
      exact .inl ⟨rfl, hlive, (Option.some.inj h).symm⟩
    · contradiction
  | call addr =>
    rw [refusal?] at h
    split at h
    · next hlive =>
      rw [CallStack.length_live] at hlive
      exact .inr (.inl ⟨addr, rfl, hlive, (Option.some.inj h).symm⟩)
    · contradiction
  | draw | storeDecimal | storeRegisters | loadRegisters =>
    exact .inr (.inr ⟨_, rfl, reachRefusal?_eq_some_iff.mp h⟩)
  | _ => contradiction

theorem stepRefusal?_of_out (h : 0xFFF ≤ m.pc.toNat) :
    m.stepRefusal? = some (.pcOutOfRange m.pc) := by
  rw [stepRefusal?, Memory.wordAt?, dif_neg (by omega)]

theorem stepRefusal?_of_unknown (hw : m.Reads w) (hd : Instruction.decode w = .error fault) :
    m.stepRefusal? = some fault := by
  rw [stepRefusal?, reads_iff.mp hw]
  simp only [hd]

theorem stepRefusal?_of_decode (hw : m.Reads w) (hd : Instruction.decode w = .ok ins) :
    m.stepRefusal? = m.refusal? ins := by
  rw [stepRefusal?, reads_iff.mp hw]
  simp only [hd]

theorem refused_of_raises (h : m.Raises fault) : m.stepRefusal? = some fault := by
  cases fault with
  | pcOutOfRange pc =>
    obtain ⟨rfl, hpc⟩ := h
    exact stepRefusal?_of_out hpc
  | unknownWord w =>
    obtain ⟨hw, hnone⟩ := h
    exact stepRefusal?_of_unknown hw (Instruction.decode_eq_error_iff.mpr ⟨rfl, hnone⟩)
  | stackUnderflow pc =>
    obtain ⟨rfl, hw, hdepth⟩ := h
    have hlive : m.calls.live = [] := by
      rw [← List.length_eq_zero_iff, CallStack.length_live, hdepth]
    have hd : Instruction.decode 0x00EE = .ok .ret := rfl
    rw [stepRefusal?_of_decode hw hd, refusal?, if_pos hlive]
  | stackOverflow pc =>
    obtain ⟨rfl, ⟨w, hw, hf⟩, hdepth⟩ := h
    have hlive : m.calls.live.length = 15 := by
      rw [CallStack.length_live, hdepth]
    rw [stepRefusal?_of_decode hw (Instruction.decode_of_call hf), refusal?, if_pos hlive]
  | addressOutOfRange addr len =>
    obtain ⟨rfl, ⟨w, hw, hreach⟩, hlt⟩ := h
    obtain ⟨ins, hd⟩ := Instruction.decodes_of_reaches hreach
    rw [stepRefusal?_of_decode hw hd,
      refusal?_of_reach (Instruction.reach?_of_reaches hreach hd)]
    exact reachRefusal?_eq_some_iff.mpr ⟨rfl, hlt⟩
  | romTooLarge | device => contradiction

theorem raises_of_refused (h : m.stepRefusal? = some fault) : m.Raises fault := by
  by_cases hpc : 0xFFF ≤ m.pc.toNat
  · rw [stepRefusal?_of_out hpc] at h
    obtain rfl := Option.some.inj h
    exact ⟨rfl, hpc⟩
  obtain ⟨w, hw⟩ := m.reads_of_in (by omega)
  cases hd : Instruction.decode w with
  | error cause =>
    rw [stepRefusal?_of_unknown hw hd] at h
    obtain rfl := Option.some.inj h
    obtain ⟨rfl, hnone⟩ := Instruction.decode_eq_error_iff.mp hd
    exact ⟨hw, hnone⟩
  | ok ins =>
    rw [stepRefusal?_of_decode hw hd] at h
    have hfits := Instruction.fits_of_decode hd
    rcases refusal_cases h with ⟨rfl, hdepth, rfl⟩ | ⟨addr, rfl, hdepth, rfl⟩ |
      ⟨len, hreach, rfl, hlt⟩
    · have hret := (Instruction.fits_word_iff (by decide) (by decide) (by decide)).mp hfits
      obtain rfl : w = 0x00EE := UInt16.toNat.inj hret
      exact ⟨rfl, hw, hdepth⟩
    · exact ⟨rfl, ⟨w, hw, Instruction.fits_family_iff.mp hfits⟩, hdepth⟩
    · exact ⟨rfl, ⟨w, hw, Instruction.reaches_of_reach? hd hreach⟩, hlt⟩

theorem raises_iff : m.Raises fault ↔ m.stepRefusal? = some fault :=
  ⟨refused_of_raises, raises_of_refused⟩

theorem step_error_iff {supply : Supply} :
    (m.step supply).result = .error fault ↔ m.stepRefusal? = some fault := by
  constructor
  · exact stepRefusal_of_error
  · intro h
    obtain ⟨log, -, hs⟩ := step_of_refusal h
    rw [hs supply]

theorem step_ok_iff {supply : Supply} :
    (m.step supply).result = .ok () ↔ m.stepRefusal? = none := by
  constructor
  · intro h
    cases hr : m.stepRefusal? with
    | none => rfl
    | some fault =>
      rw [step_error_iff.mpr hr] at h
      contradiction
  · intro h
    obtain ⟨_, _, _, _, _, hs⟩ := step_of_accepted h
    rw [hs supply]

theorem step_ok_iff_of_reaches {supply : Supply} {len : Nat} (hw : m.Reads w)
    (hreach : w.Reaches len) :
    (m.step supply).result = .ok () ↔ m.index.toNat + len ≤ 4096 := by
  obtain ⟨ins, hd⟩ := Instruction.decodes_of_reaches hreach
  rw [step_ok_iff, stepRefusal?_of_decode hw hd,
    refusal?_of_reach (Instruction.reach?_of_reaches hreach hd), reachRefusal?]
  split
  · next hfits => exact iff_of_true rfl hfits
  · next hfits => exact iff_of_false (by simp) hfits

/-- A step fails with a fault just when the machine raises it, and succeeds just when it raises
none. An instruction that reads or writes memory at the index succeeds just when all the bytes that
it reaches exist, the last one included. -/
theorem step_fails_iff (supply : Supply) (m : Machine) :
    (∀ fault, (m.step supply).result = .error fault ↔ m.Raises fault) ∧
      ((m.step supply).result = .ok () ↔ ∀ fault, ¬ m.Raises fault) ∧
      ∀ w len, m.Reads w → w.Reaches len →
        ((m.step supply).result = .ok () ↔ m.index.toNat + len ≤ 4096) := by
  refine ⟨fun fault => step_error_iff.trans raises_iff.symm, ?_,
    fun w len hw hreach => step_ok_iff_of_reaches hw hreach⟩
  rw [step_ok_iff, Option.eq_none_iff_forall_ne_some]
  exact forall_congr' fun fault => not_congr raises_iff.symm

/-- Three digits that end with the last byte of memory are stored, and one byte further on they
are refused. -/
theorem step_fails_iff_last_byte :
    let supply : Supply := ⟨fun _ => 0, Supply.heldKey⟩
    let stored := initial.run supply [.install [0xAF, 0xFD, 0xF0, 0x33], .step]
    let refused := initial.run supply [.install [0xAF, 0xFE, 0xF0, 0x33], .step]
    (stored.step supply).result = .ok () ∧
      (refused.step supply).result = .error (.addressOutOfRange 0xFFE 3) := by
  intro supply stored refused
  have hstored : stored.Reads 0xF033 ∧ stored.index.toNat = 0xFFD := by decide +kernel
  have hrefused : refused.Reads 0xF033 ∧ refused.index.toNat = 0xFFE := by decide +kernel
  have hreach : Word.Reaches 0xF033 3 := .inr (.inl (by decide))
  constructor
  · have hfits : stored.index.toNat + 3 ≤ 4096 := Nat.le_of_eq (congrArg (· + 3) hstored.2)
    exact ((step_fails_iff supply stored).2.2 0xF033 3 hstored.1 hreach).mpr hfits
  · apply ((step_fails_iff supply refused).1 _).mpr
    exact ⟨hrefused.2.symm, ⟨0xF033, hrefused.1, hreach⟩, by decide⟩

end Machine
end Chip8
