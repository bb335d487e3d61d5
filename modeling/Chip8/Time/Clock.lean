import Chip8.Mailbox

/-!
# Clocks

A clock tells the time and waits until something arrives or a deadline has passed. The logical clock
moves only when waited on: what is already there is handed over at once, and otherwise the wait
jumps to the deadline.
-/
namespace Chip8

inductive WaitEnd (ε : Type) where
  | arrival (item : ε)
  | deadline
  /-- Nobody is left who could send; the deadline has been waited for all the same. -/
  | deserted
  deriving DecidableEq, Repr

structure Waited (κ ε : Type) where
  ending : WaitEnd ε
  clock : κ
  mailbox : Mailbox ε

/-- Where the run loop gets its time from, in nanoseconds. -/
class Clock (κ : Type) where
  now : κ → Nat
  /-- Waits for a signal in the mailbox, but not past the deadline. -/
  wait : κ → Mailbox Signal → Nat → Waited κ Signal

structure LogicalClock where
  now : Nat
  deriving DecidableEq, Repr

namespace LogicalClock

/-- The same clock at `time`, or unchanged if that has passed. -/
def advanceTo (c : LogicalClock) (time : Nat) : LogicalClock := ⟨max c.now time⟩

/-- Takes what is there without letting time pass, or else jumps to the deadline. -/
def wait {ε : Type} (c : LogicalClock) (mailbox : Mailbox ε) (deadline : Nat) :
    Waited LogicalClock ε :=
  match mailbox.receive with
  | (.item item, rest) => ⟨.arrival item, c, rest⟩
  | (.empty, rest) => ⟨.deadline, c.advanceTo deadline, rest⟩
  | (.closed, rest) => ⟨.deserted, c.advanceTo deadline, rest⟩

instance : Clock LogicalClock := ⟨now, wait⟩

variable {ε : Type} (c : LogicalClock) {mailbox : Mailbox ε} (deadline : Nat)

theorem wait_of_waiting {item : ε} {rest : List ε} (h : mailbox.waiting = item :: rest) :
    c.wait mailbox deadline = ⟨.arrival item, c, { mailbox with waiting := rest }⟩ := by
  rw [wait, Mailbox.receive_of_cons h]

theorem wait_of_empty (h : mailbox.waiting = []) :
    c.wait mailbox deadline =
      ⟨if mailbox.connected || mailbox.shared then .deadline else .deserted,
        c.advanceTo deadline, mailbox⟩ := by
  rw [wait, Mailbox.receive_of_nil h]
  cases mailbox.connected || mailbox.shared <;> rfl

end LogicalClock
end Chip8
