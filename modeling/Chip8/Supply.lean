import Chip8.Keypad

/-!
# Supplies from outside

A running program asks for two things it cannot compute: random bytes and the key it waits for. A
supply says what every request is answered with. The machine counts the requests it has made, so
the same supply serves a whole run, and a run that asks less often sees a shorter part of it.
-/
namespace Chip8

structure Supply where
  /-- The answer to each request for a random byte, counted from 0. -/
  randomByte : Nat → UInt8
  /-- The answer to each request for a key, counted from 0, given the keypad at that moment; with
  none the program goes on waiting. -/
  awaitedKey : Nat → Keypad → Option UInt8

namespace Supply

/-- The lowest key that is down answers every request for a key. -/
def heldKey : Nat → Keypad → Option UInt8 := fun _ keypad => keypad.lowest

/-- The given bytes in turn, over and over; zeros if there are none. -/
def cycle (bytes : List UInt8) : Nat → UInt8 := fun request =>
  bytes.getD (request % bytes.length) 0

/-- The given answers in turn, over and over, whatever keys are down. -/
def cycleKeys (answers : List (Option UInt8)) : Nat → Keypad → Option UInt8 := fun request _ =>
  answers.getD (request % answers.length) none

end Supply
end Chip8
