import Chip8.Supply

/-!
# The keys that are down

The keypad answers two questions: whether one key is down, and which is the lowest of those that
are. `Reports` says that both answers are about the same keys. When keys are pressed and released is
not said here.
-/
namespace Chip8.Keypad

variable {k : Keypad} {code : UInt8}

theorem isDown_iff : k.isDown code = true ↔ ∃ key ∈ k.held, code.toNat = key.val := by
  unfold isDown held
  constructor
  · intro h
    by_cases hlt : code.toNat < 16
    · rw [Vector.getElem?_eq_getElem hlt] at h
      exact ⟨⟨code.toNat, hlt⟩, by simpa using h, rfl⟩
    · rw [Vector.getElem?_eq_none (by omega)] at h
      contradiction
  · rintro ⟨key, hkey, hcode⟩
    rw [hcode, Vector.getElem?_eq_getElem key.isLt]
    simpa using hkey

theorem code_le_of_isDown (h : k.isDown code = true) : code.toNat ≤ 0xF := by
  obtain ⟨key, -, hcode⟩ := isDown_iff.mp h
  have := key.isLt
  omega

theorem isDown_ofNat {key : Fin 16} (h : key ∈ k.held) :
    k.isDown (UInt8.ofNat key) = true := by
  refine isDown_iff.mpr ⟨key, h, ?_⟩
  rw [UInt8.toNat_ofNat']
  omega

/-- The first of the keys that are down is the lowest. -/
theorem le_of_mem_held {key other : Fin 16} {rest : List (Fin 16)} (h : k.held = key :: rest)
    (hother : other ∈ k.held) : key ≤ other := by
  have hsorted : k.held.Pairwise (· < ·) := (List.pairwise_lt_finRange 16).filter _
  rw [h] at hsorted hother
  rcases List.mem_cons.mp hother with rfl | hrest
  · exact Fin.le_refl _
  · exact Fin.le_of_lt (List.rel_of_pairwise_cons hsorted hrest)

theorem lowest_of_held {key : Fin 16} {rest : List (Fin 16)} (h : k.held = key :: rest) :
    k.lowest = some (UInt8.ofNat key) := by
  rw [lowest, h]
  rfl

theorem lowest_of_held_nil (h : k.held = []) : k.lowest = none := by
  rw [lowest, h]
  rfl

theorem lowest_eq_none_iff : k.lowest = none ↔ ∀ code, ¬ k.isDown code = true := by
  cases hheld : k.held with
  | nil =>
    refine iff_of_true (lowest_of_held_nil hheld) fun code hdown => ?_
    obtain ⟨key, hkey, -⟩ := isDown_iff.mp hdown
    rw [hheld] at hkey
    contradiction
  | cons key rest =>
    have hkey : key ∈ k.held := by
      rw [hheld]
      exact List.mem_cons_self
    rw [lowest_of_held hheld]
    exact iff_of_false (by simp) fun hup => hup _ (isDown_ofNat hkey)

theorem lowest_le (h : k.lowest = some code) {other : UInt8} (hother : k.isDown other = true) :
    code ≤ other := by
  cases hheld : k.held with
  | nil =>
    rw [lowest_of_held_nil hheld] at h
    contradiction
  | cons key rest =>
    rw [lowest_of_held hheld] at h
    obtain rfl := Option.some.inj h
    obtain ⟨key', hkey', hcode⟩ := isDown_iff.mp hother
    have hle : key.val ≤ key'.val := le_of_mem_held hheld hkey'
    rw [UInt8.le_iff_toNat_le, hcode, UInt8.toNat_ofNat']
    omega

theorem isDown_of_lowest (h : k.lowest = some code) : k.isDown code = true := by
  cases hheld : k.held with
  | nil =>
    rw [lowest_of_held_nil hheld] at h
    contradiction
  | cons key rest =>
    rw [lowest_of_held hheld] at h
    obtain rfl := Option.some.inj h
    exact isDown_ofNat (by rw [hheld]; exact List.mem_cons_self)

theorem lowest_eq_some_iff :
    k.lowest = some code ↔
      k.isDown code = true ∧ ∀ other, k.isDown other = true → code ≤ other := by
  constructor
  · intro h
    exact ⟨isDown_of_lowest h, fun other hother => lowest_le h hother⟩
  · rintro ⟨hdown, hleast⟩
    cases hlow : k.lowest with
    | none => exact absurd hdown (lowest_eq_none_iff.mp hlow code)
    | some least =>
      have hle := hleast least (isDown_of_lowest hlow)
      have hge := lowest_le hlow hdown
      rw [UInt8.le_antisymm hge hle]

theorem isDown_press_iff (k : Keypad) (pressed code : UInt8) :
    (k.press pressed).isDown code = true ↔
      (code.toNat ≤ 0xF ∧ pressed = code) ∨ k.isDown code = true := by
  rw [isDown_press, Bool.or_eq_true_iff, Bool.and_eq_true_iff, beq_iff_eq, decide_eq_true_iff,
    Nat.lt_succ_iff, and_comm]

theorem press_of_no_such_key (h : 0xF < code.toNat) (k : Keypad) : k.press code = k := by
  rw [press, Vector.setIfInBounds_eq_of_size_le h]

theorem pressNotices_of_no_such_key (h : 0xF < code.toNat) :
    pressNotices code = [.noSuchKey code] := by
  rw [pressNotices, if_neg (by omega)]

/-- Both answers of the keypad are about the codes that satisfy `down`: those are the keys that are
down, and a request for a key gets the lowest of them, or none if there is none. -/
structure Reports (k : Keypad) (down : UInt8 → Prop) : Prop where
  isDown_iff : ∀ code, k.isDown code = true ↔ down code
  key_iff : ∀ request code, Supply.heldKey request k = some code ↔
    down code ∧ ∀ other, down other → code ≤ other
  no_key_iff : ∀ request, Supply.heldKey request k = none ↔ ∀ code, ¬ down code

theorem reports_of_isDown_iff {down : UInt8 → Prop}
    (h : ∀ code, k.isDown code = true ↔ down code) : k.Reports down where
  isDown_iff := h
  key_iff request code := by
    rw [Supply.heldKey, lowest_eq_some_iff, h]
    simp only [h]
  no_key_iff request := by
    rw [Supply.heldKey, lowest_eq_none_iff]
    simp only [h]

end Chip8.Keypad
