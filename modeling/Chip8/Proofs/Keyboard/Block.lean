import Chip8.Proofs.Keyboard.Relayed
import Mathlib.Logic.ExistsUnique

/-!
# The block of the keyboard

Four rows of four characters lie where the keypad has its keys. `InBlock` reads both off row by row,
and `signal_eq_key_iff` says that these characters mean these keys, whatever the case of a letter,
and that no other stroke means a key.
-/
namespace Chip8.Keyboard

/-- The characters of the block, row by row. -/
def characters : List Char :=
  ['1', '2', '3', '4',
   'q', 'w', 'e', 'r',
   'a', 's', 'd', 'f',
   'z', 'x', 'c', 'v']

/-- The codes of the keypad, row by row. -/
def codes : List UInt8 :=
  [0x1, 0x2, 0x3, 0xC,
   0x4, 0x5, 0x6, 0xD,
   0x7, 0x8, 0x9, 0xE,
   0xA, 0x0, 0xB, 0xF]

/-- The character lies where the keypad has the key with this code. -/
def InBlock (c : Char) (code : UInt8) : Prop := (c, code) ∈ characters.zip codes

instance (c : Char) (code : UInt8) : Decidable (InBlock c code) :=
  inferInstanceAs (Decidable ((c, code) ∈ characters.zip codes))

/-- The character is the one in the block or its upper-case form. -/
def StandsFor (c : Char) (code : UInt8) : Prop :=
  ∃ lower, InBlock lower code ∧ (c = lower ∨ c = lower.toUpper)

variable {c lower : Char} {code : UInt8}

theorem isUpper_iff : c.isUpper ↔ 65 ≤ c.toNat ∧ c.toNat ≤ 90 := decide_eq_true_iff

theorem toNat_toLower (c : Char) :
    c.toLower.toNat = if 65 ≤ c.toNat ∧ c.toNat ≤ 90 then c.toNat + 32 else c.toNat := by
  unfold Char.toLower
  split
  · next h =>
    have hupper : 65 ≤ c.toNat ∧ c.toNat ≤ 90 := h
    have hsum : (c.val + 32).toNat = (c.toNat + 32) % 2 ^ 32 := UInt32.toNat_add c.val 32
    rw [if_pos hupper]
    show (c.val + 32).toNat = c.toNat + 32
    omega
  · next h => exact (if_neg h).symm

theorem toNat_toUpper (c : Char) :
    c.toUpper.toNat = if 97 ≤ c.toNat ∧ c.toNat ≤ 122 then c.toNat - 32 else c.toNat := by
  unfold Char.toUpper
  split
  · next h =>
    have hlower : 97 ≤ c.toNat ∧ c.toNat ≤ 122 := h
    -- 32 is taken away by adding its complement in 32 bits
    have hsum : (c.val + 4294967264).toNat = (c.toNat + 4294967264) % 2 ^ 32 :=
      UInt32.toNat_add c.val 4294967264
    rw [if_pos hlower]
    show (c.val + 4294967264).toNat = c.toNat - 32
    omega
  · next h => exact (if_neg h).symm

theorem toLower_eq_iff (h : ¬ lower.isUpper) :
    c.toLower = lower ↔ c = lower ∨ c = lower.toUpper := by
  rw [isUpper_iff] at h
  rw [← Char.toNat_inj, ← Char.toNat_inj, ← Char.toNat_inj, toNat_toLower, toNat_toUpper]
  split <;> split <;> omega

theorem keypadCode_eq_some_iff : keypadCode c = some code ↔ InBlock c code := by
  constructor
  · intro h
    unfold keypadCode at h
    split at h <;> cases h <;> decide
  · intro h
    have hall : ∀ place ∈ characters.zip codes, keypadCode place.1 = some place.2 := by decide
    exact hall (c, code) h

theorem InBlock.not_isUpper (h : InBlock lower code) : ¬ lower.isUpper := by
  have hall : ∀ place ∈ characters.zip codes, ¬ place.1.isUpper := by decide
  exact hall (lower, code) h

theorem keypadCode_toLower_eq_some_iff : keypadCode c.toLower = some code ↔ StandsFor c code := by
  rw [keypadCode_eq_some_iff]
  constructor
  · intro h
    exact ⟨c.toLower, h, (toLower_eq_iff h.not_isUpper).mp rfl⟩
  · rintro ⟨lower, hlower, hc⟩
    rwa [(toLower_eq_iff hlower.not_isUpper).mpr hc]

theorem StandsFor.code_le (h : StandsFor c code) : code.toNat ≤ 0xF :=
  code_le_of_keypadCode (keypadCode_toLower_eq_some_iff.mpr h)

theorem existsUnique_inBlock (h : code.toNat ≤ 0xF) : ∃! lower, InBlock lower code := by
  have hexists : ∀ k < 16, ∃ place ∈ characters.zip codes, place.2.toNat = k := by decide
  have hone : ∀ place ∈ characters.zip codes, ∀ other ∈ characters.zip codes,
      place.2 = other.2 → place.1 = other.1 := by decide
  obtain ⟨⟨lower, placed⟩, hmem, hplaced⟩ := hexists code.toNat (Nat.lt_succ_of_le h)
  obtain rfl : placed = code := UInt8.toNat.inj hplaced
  exact ⟨lower, hmem, fun other hother => hone (other, placed) hother (lower, placed) hmem rfl⟩

/-- A stroke means a key of the keypad if it types the character of that key without Control. -/
theorem Stroke.signal_eq_key_iff {s : Stroke} :
    s.signal = some (.key code) ↔
      s.modifiers.control = false ∧ ∃ c, s.key = .char c ∧ StandsFor c code := by
  unfold signal
  cases s.modifiers.control with
  | true =>
    rw [if_pos rfl]
    split <;> simp
  | false =>
    rw [if_neg Bool.false_ne_true]
    cases s.key with
    | escape => simp
    | char c => simp [keypadCode_toLower_eq_some_iff]
    | other name => simp

end Chip8.Keyboard
