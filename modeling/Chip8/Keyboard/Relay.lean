import Chip8.Keyboard.Layout
import Chip8.Notice

/-!
# From the keyboard to the run loop

Readings are taken one after the other and turned into signals. A key that is let go means nothing,
and a failed reading asks to quit. Nothing is read after a signal to quit, nor after a signal that
nobody was there to take.
-/
namespace Chip8.Keyboard

namespace Reading

def signal : Reading → Option Signal
  | stroke s => if s.motion = .released then none else s.signal
  | other => none
  | failed _ => some .quit

def notices : Reading → List Notice
  | failed message => [.readFailed message]
  | _ => []

end Reading

/-- Why nothing more is relayed. -/
inductive Ending where
  /-- All readings have been taken. -/
  | exhausted
  /-- The signal to quit has been sent. -/
  | quit
  /-- Nobody was there to take a signal. -/
  | unheard
  deriving DecidableEq, Repr

def Ending.notices : Ending → List Notice
  | unheard => [.runLoopGone]
  | _ => []

/-- What was sent, the notices given on the way, why this ended and which readings were left. -/
structure Relayed where
  sent : List Signal
  log : List Notice
  ending : Ending
  unread : List Reading
  deriving DecidableEq, Repr

/-- All notices: those given on the way and the one about the end. -/
def Relayed.notices (r : Relayed) : List Notice := r.log ++ r.ending.notices

/-- Sends the signals of the readings to a run loop, which is `listening` or has gone away. -/
def relay (listening : Bool) : List Reading → Relayed
  | [] => ⟨[], [], .exhausted, []⟩
  | reading :: rest =>
    match reading.signal with
    | none => relay listening rest
    | some signal =>
      if listening = false then ⟨[], reading.notices, .unheard, rest⟩
      else if signal = .quit then ⟨[.quit], reading.notices, .quit, rest⟩
      else
        let later := relay listening rest
        { later with sent := signal :: later.sent, log := reading.notices ++ later.log }

end Chip8.Keyboard
