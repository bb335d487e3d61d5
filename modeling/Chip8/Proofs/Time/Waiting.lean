import Chip8.Time.Clock

/-!
# Waits of a logical clock

A wait takes the oldest signal and no time, or else it moves the clock to the deadline. Clocks that
let signals in by themselves while they wait are not covered.
-/
namespace Chip8

/-- The signal that a wait ended with, if it was one. -/
def WaitEnd.signal? : WaitEnd Signal → Option Signal
  | arrival signal => some signal
  | _ => none

namespace LogicalClock

variable (c : LogicalClock) (mailbox : Mailbox Signal) (deadline : Nat)

theorem signal?_wait : (c.wait mailbox deadline).ending.signal? = mailbox.waiting.head? := by
  cases h : mailbox.waiting with
  | nil =>
    rw [wait_of_empty c deadline h]
    cases mailbox.connected || mailbox.shared <;> rfl
  | cons signal rest =>
    rw [wait_of_waiting c deadline h]
    rfl

theorem mailbox_wait :
    (c.wait mailbox deadline).mailbox = { mailbox with waiting := mailbox.waiting.tail } := by
  cases h : mailbox.waiting with
  | nil => rw [wait_of_empty c deadline h, List.tail_nil, ← h]
  | cons signal rest =>
    rw [wait_of_waiting c deadline h]
    rfl

theorem clock_wait :
    (c.wait mailbox deadline).clock = c ∨
      (c.wait mailbox deadline).clock = c.advanceTo deadline := by
  cases h : mailbox.waiting with
  | nil =>
    right
    rw [wait_of_empty c deadline h]
  | cons signal rest =>
    left
    rw [wait_of_waiting c deadline h]

/-- Waiting for a time that has not passed moves the clock just there. -/
theorem now_advanceTo_of_le {time : Nat} (h : c.now ≤ time) : (c.advanceTo time).now = time :=
  Nat.max_eq_right h

end LogicalClock
end Chip8
