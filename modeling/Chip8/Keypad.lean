import Chip8.Notice

/-!
# The keypad

Sixteen keys, each up or down. The keyboard only tells of keys going down; all keys come up
together, when the run loop says so. Codes above 0xF name no key: they are never down, and a press
of one changes nothing and is noted.
-/
namespace Chip8

structure Keypad where
  down : Vector Bool 16
  deriving DecidableEq, Repr

namespace Keypad

def released : Keypad := ⟨Vector.replicate 16 false⟩

/-- The key with this code goes down, if there is one. -/
def press (k : Keypad) (code : UInt8) : Keypad := ⟨k.down.setIfInBounds code.toNat true⟩

/-- What a press of this code is worth noting. -/
def pressNotices (code : UInt8) : List Notice :=
  if code.toNat < 16 then [] else [.noSuchKey code]

def isDown (k : Keypad) (code : UInt8) : Bool := k.down[code.toNat]?.getD false

/-- The keys that are down, the lowest first. -/
def held (k : Keypad) : List (Fin 16) := (List.finRange 16).filter fun key => k.down[key]

def lowest (k : Keypad) : Option UInt8 := k.held.head?.map fun key => UInt8.ofNat key

@[simp] theorem isDown_released (code : UInt8) : released.isDown code = false := by
  simp only [isDown, released, Vector.getElem?_replicate]
  split <;> rfl

theorem isDown_press (k : Keypad) (pressed code : UInt8) :
    (k.press pressed).isDown code =
      ((pressed == code && decide (code.toNat < 16)) || k.isDown code) := by
  by_cases hc : code.toNat < 16
  · have hset : (k.press pressed).isDown code =
        if pressed.toNat = code.toNat then true else k.isDown code := by
      simp only [isDown, press, Vector.getElem?_eq_getElem hc, Vector.getElem_setIfInBounds hc,
        Option.getD_some]
    rw [hset]
    by_cases hp : pressed = code
    · subst hp; simp [hc]
    · have : pressed.toNat ≠ code.toNat := fun h => hp (UInt8.toNat.inj h)
      simp [hp, this]
  · simp [isDown, hc]

end Keypad
end Chip8
