import Chip8.Time.Clock

/-!
# Rehearsed time

A logical clock on which signals arrive by a script, each at its time, and waits end late by given
amounts. A wait takes in at most one entry of the script, the first one, if its time is not after
the deadline; that entry goes to the back of the mailbox, or is lost if the mailbox is full.
-/
namespace Chip8

structure Rehearsal where
  clock : LogicalClock
  /-- The arrivals to come, each with its time. -/
  script : List (Nat × Signal)
  /-- How late the coming waits end; those after the last one are punctual. -/
  lags : List Nat
  deriving DecidableEq, Repr

namespace Rehearsal

/-- Lets the first arrival happen if its time is not after `deadline`. -/
def arrive (r : Rehearsal) (mailbox : Mailbox Signal) (deadline : Nat) :
    Rehearsal × Mailbox Signal :=
  match r.script with
  | [] => (r, mailbox)
  | (time, signal) :: rest =>
    if time ≤ deadline then
      ({ r with clock := r.clock.advanceTo time, script := rest }, mailbox.deliver signal)
    else (r, mailbox)

/-- Lets an arrival happen, then waits, longer than asked by the next lag. -/
def wait (r : Rehearsal) (mailbox : Mailbox Signal) (deadline : Nat) : Waited Rehearsal Signal :=
  let (arrived, mailbox) := r.arrive mailbox deadline
  let waited := arrived.clock.wait mailbox (deadline + arrived.lags.headD 0)
  ⟨waited.ending, { arrived with clock := waited.clock, lags := arrived.lags.tail },
    waited.mailbox⟩

instance : Clock Rehearsal := ⟨fun r => r.clock.now, wait⟩

end Rehearsal
end Chip8
