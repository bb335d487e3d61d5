import Chip8.Fault
import Chip8.Font

/-!
# Memory

4096 bytes. Longer accesses go through a `Span`, a range of addresses that all exist; asking for a
range that leaves memory is the only fault here. `getElem_write` says what a write does to each
byte, and `getElem?_read` what a read gives.
-/
namespace Chip8

abbrev Memory := Vector UInt8 4096

/-- The addresses `start` to `start + len - 1`, all of them in memory. -/
structure Span where
  start : Nat
  len : Nat
  fits : start + len ≤ 4096

namespace Span

/-- `len` bytes from `addr` on, if they all exist. -/
def at? (addr : Word) (len : Nat) : Except Fault Span :=
  if h : addr.toNat + len ≤ 4096 then .ok ⟨addr.toNat, len, h⟩
  else .error (.addressOutOfRange addr.toNat len)

end Span

namespace Memory

def read (m : Memory) (s : Span) : List UInt8 :=
  List.ofFn fun k : Fin s.len => getElem m (s.start + k) (by have := s.fits; omega)

/-- Puts `bytes` at `start` and the addresses behind it; what leaves memory is lost. -/
def write (m : Memory) (start : Nat) : List UInt8 → Memory
  | [] => m
  | byte :: bytes => write (m.setIfInBounds start byte) (start + 1) bytes

/-- Memory of a machine that has just been switched on: the font, then zeros. -/
def initial : Memory := write (Vector.replicate 4096 0) 0 font

/-- The word at `pc` and the address behind it, if both exist. -/
def wordAt? (m : Memory) (pc : Word) : Except Fault Word :=
  if h : pc.toNat + 1 < 4096 then .ok (Word.ofBytes m[pc.toNat] m[pc.toNat + 1])
  else .error (.pcOutOfRange pc)

theorem length_read (m : Memory) (s : Span) : (m.read s).length = s.len := by
  simp only [read, List.length_ofFn]

theorem getElem?_read (m : Memory) (s : Span) (k : Nat) :
    (m.read s)[k]? = if k < s.len then m[s.start + k]? else none := by
  have := s.fits
  by_cases h : k < s.len
  · have hm : s.start + k < 4096 := by omega
    simp [read, h, hm]
  · simp [read, h]

/-- A write changes the addresses it covers and no other. -/
theorem getElem_write (m : Memory) (start : Nat) (bytes : List UInt8) (a : Nat) (ha : a < 4096) :
    (m.write start bytes)[a] =
      if start ≤ a then (bytes[a - start]?).getD m[a] else m[a] := by
  induction bytes generalizing m start with
  | nil => simp [write]
  | cons byte bytes ih =>
    rw [write, ih, Vector.getElem_setIfInBounds ha]
    by_cases hlt : start < a
    · have hs : a - start = (a - (start + 1)) + 1 := by omega
      have hle : start + 1 ≤ a := hlt
      have hne : start ≠ a := by omega
      have hle' : start ≤ a := by omega
      simp only [hle, hle', hne, if_true, if_false, hs, List.getElem?_cons_succ]
    · by_cases heq : start = a
      · subst heq
        have : ¬ start + 1 ≤ start := by omega
        simp [this]
      · have h1 : ¬ start + 1 ≤ a := by omega
        have h2 : ¬ start ≤ a := by omega
        simp [h1, h2, heq]

theorem getElem?_write_inside (m : Memory) {start k : Nat} {bytes : List UInt8}
    (hk : k < bytes.length) (ha : start + k < 4096) :
    (m.write start bytes)[start + k]? = bytes[k]? := by
  rw [Vector.getElem?_eq_getElem ha, getElem_write, if_pos (Nat.le_add_right _ _),
    Nat.add_sub_cancel_left, List.getElem?_eq_getElem hk, Option.getD_some]

theorem getElem_write_outside (m : Memory) {start a : Nat} {bytes : List UInt8} (ha : a < 4096)
    (h : ¬ (start ≤ a ∧ a < start + bytes.length)) : (m.write start bytes)[a] = m[a] := by
  rw [getElem_write]
  split
  · next hle =>
    have hlen : bytes.length ≤ a - start := by omega
    rw [List.getElem?_eq_none hlen, Option.getD_none]
  · rfl

end Memory
end Chip8
