import Chip8.Proofs.Instruction.RoundTrip
import Chip8.Proofs.Machine.Operation
import Mathlib.Data.List.Forall2

/-!
# Programs in memory

A program that is loaded is found again: its bytes go behind each other from 0x200 on, a word is
read with its high byte first, and decoding undoes the encoding. The longest programs that fit are
1792 instructions long. What happens when a program runs is not said here.
-/
namespace Chip8

namespace Instruction

variable {words : List Word} {k : Nat}

theorem length_assemble (words : List Word) : (assemble words).length = 2 * words.length := by
  induction words with
  | nil => rfl
  | cons w words ih =>
    show ([w.high, w.low] ++ assemble words).length = 2 * (words.length + 1)
    rw [List.length_append, ih, List.length_cons, List.length_singleton]
    omega

/-- The bytes of each word are the two at twice its place. -/
theorem getElem?_assemble (words : List Word) (k : Nat) :
    (assemble words)[2 * k]? = words[k]?.map Word.high ∧
      (assemble words)[2 * k + 1]? = words[k]?.map Word.low := by
  induction words generalizing k with
  | nil => exact ⟨rfl, rfl⟩
  | cons w words ih =>
    cases k with
    | zero => exact ⟨rfl, rfl⟩
    | succ k => exact ih k

end Instruction

theorem Memory.wordAt?_of_bytes {memory : Memory} {pc w : Word}
    (hhigh : memory[pc.toNat]? = some w.high) (hlow : memory[pc.toNat + 1]? = some w.low) :
    memory.wordAt? pc = .ok w := by
  obtain ⟨_, hfirst⟩ := Vector.getElem?_eq_some_iff.mp hhigh
  obtain ⟨hpc, hsecond⟩ := Vector.getElem?_eq_some_iff.mp hlow
  rw [wordAt?, dif_pos hpc, hfirst, hsecond, Word.ofBytes_high_low]

namespace Machine

open Instruction

variable {words : List Word} {program : List Instruction} {k : Nat}

/-- Where the instruction with the given number is loaded, counted from 0. -/
def programAddress (k : Nat) : Word := UInt16.ofNat (0x200 + 2 * k)

theorem toNat_programAddress (hk : k < 1792) : (programAddress k).toNat = 0x200 + 2 * k := by
  rw [programAddress, UInt16.toNat_ofNat']
  omega

/-- A program that fits is found word by word where it was loaded. -/
theorem wordAt?_write_assemble (memory : Memory) (hlen : words.length ≤ 1792)
    (hk : k < words.length) :
    (memory.write programStart (assemble words)).wordAt? (programAddress k) = .ok words[k] := by
  have hpc : (programAddress k).toNat = programStart + 2 * k :=
    toNat_programAddress (Nat.lt_of_lt_of_le hk hlen)
  have hin : programStart + (2 * k + 1) < 4096 := by
    show 0x200 + (2 * k + 1) < 4096
    omega
  have hbytes := length_assemble words
  obtain ⟨hhigh, hlow⟩ := getElem?_assemble words k
  rw [List.getElem?_eq_getElem hk, Option.map_some] at hhigh hlow
  apply Memory.wordAt?_of_bytes
  · rw [hpc, Memory.getElem?_write_inside memory (by omega) (Nat.lt_of_succ_lt hin), hhigh]
  · rw [hpc, Nat.add_assoc, Memory.getElem?_write_inside memory (by omega) hin, hlow]

/-- Any machine loads at most 1792 instructions from any encodings of them, and what is then fetched
from an instruction's address is decoded to that instruction. Decoding gives an instruction for just
the words that encode it, and the fault for any other word names the word. -/
theorem loaded_program_decodes :
    (∀ (m : Machine) (words : List Word) (program : List Instruction),
      List.Forall₂ Encodes words program → program.length ≤ 1792 →
      (m.install (assemble words)).result = .ok () ∧
        ∀ k (hk : k < program.length),
          ((m.install (assemble words)).state.memory.wordAt? (programAddress k) >>= decode) =
            .ok program[k]) ∧
    (∀ w ins, decode w = .ok ins ↔ Encodes w ins) ∧
    ∀ w, (∀ ins, ¬ Encodes w ins) → decode w = .error (.unknownWord w) := by
  refine ⟨fun m words program hencodes hlen => ?_, fun _ _ => decode_eq_ok_iff,
    fun _ => decode_of_not_encodes⟩
  have hwords : words.length = program.length := hencodes.length_eq
  have hfits : ¬ 3584 < (assemble words).length := by
    rw [length_assemble]
    omega
  rw [install_of_fits hfits]
  refine ⟨rfl, fun k hk => ?_⟩
  have hread := wordAt?_write_assemble m.memory (hwords ▸ hlen) (hwords ▸ hk)
  have hword : Encodes words[k] program[k] := hencodes.get (hwords ▸ hk) hk
  show (_ >>= decode) = _
  rw [hread]
  exact decode_eq_ok_iff.mpr hword

/-- A shift whose spare digit is B, and a sprite of five rows. -/
theorem loaded_program_decodes_spare_digit :
    (Machine.initial.install (assemble [0x81B6, 0xD125])).result = .ok () ∧
      ∀ k (hk : k < 2),
        ((Machine.initial.install (assemble [0x81B6, 0xD125])).state.memory.wordAt?
          (programAddress k) >>= decode) = .ok [.shiftRight 1, .draw 1 2 5][k] :=
  loaded_program_decodes.1 Machine.initial [0x81B6, 0xD125] [.shiftRight 1, .draw 1 2 5]
    (.cons ⟨trivial, 0xB, rfl⟩ (.cons ⟨by decide, 0, rfl⟩ .nil)) (by decide)

end Machine
end Chip8
