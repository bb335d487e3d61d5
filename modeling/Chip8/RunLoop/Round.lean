import Chip8.Frame.Render
import Chip8.Machine.Execute
import Chip8.RunLoop.Basic

/-!
# One round of the run loop

A round does what is due and then waits for the next thing to do. First all keys are released if
their metronome is due, then the machine steps if its metronome is due, then every pending request
to show the frame is served; the wait that follows ends with a signal or at the earlier deadline. A
fault ends the round at once, so no signal is taken and no time passes.
-/
namespace Chip8

/-- Whether the run goes on after a round. -/
inductive Verdict where
  | proceed
  | shutDown
  deriving DecidableEq, Repr

namespace RunLoop

variable {δ κ : Type}

def releaseIfDue (s : RunLoop δ κ) (now : Nat) : RunLoop δ κ :=
  if s.releasing.isDue now then
    { s with machine := s.machine.releaseKeys, releasing := s.releasing.beat now }
  else s

def stepIfDue (supply : Supply) (s : RunLoop δ κ) (now : Nat) : Outcome (RunLoop δ κ) Unit :=
  if s.stepping.isDue now then
    (s.machine.step supply).within fun machine =>
      { s with machine := machine, stepping := s.stepping.beat now }
  else .done () s

/-- Serves up to `count` requests to show the frame. -/
def showTimes [Display δ] : Nat → RunLoop δ κ → Outcome (RunLoop δ κ) Unit
  | 0, s => .done () s
  | count + 1, s =>
    match s.machine.takeRedraw? with
    | none => .done () s
    | some machine =>
      match machine.frame.render s.display with
      | (.ok (), display) => showTimes count { s with machine := machine, display := display }
      | (.error fault, display) => .failed fault { s with machine := machine, display := display }

def showPending [Display δ] (s : RunLoop δ κ) : Outcome (RunLoop δ κ) Unit :=
  s.showTimes s.machine.pendingRedraws

def deadline (s : RunLoop δ κ) : Nat := min s.stepping.next s.releasing.next

/-- Acts on the end of a wait. That nobody is left to send is noted once. -/
def wakeUp (s : RunLoop δ κ) : WaitEnd Signal → Outcome (RunLoop δ κ) Verdict
  | .arrival (.key code) =>
    ⟨.ok .proceed, { s with machine := s.machine.press code }, Keypad.pressNotices code⟩
  | .arrival .quit => .done .shutDown s
  | .deadline => .done .proceed s
  | .deserted =>
    if s.inputGone then .done .proceed s
    else ⟨.ok .proceed, { s with inputGone := true }, [.inputGone]⟩

/-- Waits for a signal or the deadline and acts on it. -/
def await [Clock κ] (s : RunLoop δ κ) : Outcome (RunLoop δ κ) Verdict :=
  let waited := Clock.wait s.clock s.inbound s.deadline
  wakeUp { s with clock := waited.clock, inbound := waited.mailbox } waited.ending

def round [Display δ] [Clock κ] (supply : Supply) (s : RunLoop δ κ) :
    Outcome (RunLoop δ κ) Verdict :=
  let now := Clock.now s.clock
  ((s.releaseIfDue now).stepIfDue supply now).andThen fun _ s =>
    s.showPending.andThen fun _ s => s.await

end RunLoop
end Chip8
