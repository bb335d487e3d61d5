import Chip8.Display
import Chip8.Machine.Basic
import Chip8.Time.Clock
import Chip8.Time.Metronome

/-!
# The run loop's state

A machine, the display that shows it, the mailbox that keys come through, a clock, and two
metronomes: one for the machine's steps and one for the release of all keys.
-/
namespace Chip8

/-- How often the machine steps and how often all keys are released, each in a second. -/
structure Rates where
  stepHz : Nat
  resetHz : Nat
  deriving DecidableEq, Repr

def Rates.default : Rates := ⟨defaultClockHz, defaultResetHz⟩

/-- A run loop over a display of type `δ` and a clock of type `κ`. -/
structure RunLoop (δ κ : Type) where
  machine : Machine
  display : δ
  inbound : Mailbox Signal
  clock : κ
  /-- Beats for the machine's steps. -/
  stepping : Metronome
  /-- Beats for the release of all keys. -/
  releasing : Metronome
  /-- It has been noted that nobody is left who could send a key. -/
  inputGone : Bool
  deriving DecidableEq, Repr

namespace RunLoop

variable {δ κ : Type} [Clock κ]

/-- A run loop whose metronomes start now. -/
def start (machine : Machine) (display : δ) (inbound : Mailbox Signal) (clock : κ)
    (rates : Rates) : RunLoop δ κ where
  machine := machine
  display := display
  inbound := inbound
  clock := clock
  stepping := Metronome.ofRate rates.stepHz (Clock.now clock)
  releasing := Metronome.ofRate rates.resetHz (Clock.now clock)
  inputGone := false

end RunLoop
end Chip8
