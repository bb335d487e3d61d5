import Chip8.Frame.Basic

/-!
# Displays

Something that can show a frame: it is told the state of one pixel after the other and then to make
them visible. Each call may fail with a message, and leaves a display behind in either case.

A recorder is a display that remembers the last frame shown to it and counts the calls, the failing
ones too. It can be set to fail at one write and at one flush, counted from 1; a failing write
leaves its cell as it was.
-/
namespace Chip8

/-- The calls that a display of type `δ` answers. -/
class Display (δ : Type) where
  /-- Shows the pixel in a column and a row as lit or dark. -/
  paint : δ → Fin 64 → Fin 32 → Bool → Except String Unit × δ
  /-- Makes everything since the last flush visible. -/
  flush : δ → Except String Unit × δ

structure Recorder where
  shown : Frame
  writes : Nat
  flushes : Nat
  /-- The write that fails; 0 for none. -/
  failWrite : Nat
  /-- The flush that fails; 0 for none. -/
  failFlush : Nat
  deriving DecidableEq, Repr

namespace Recorder

/-- A blank recorder that fails at the given calls. -/
def failingAt (failWrite failFlush : Nat) : Recorder := ⟨Frame.blank, 0, 0, failWrite, failFlush⟩

/-- A blank recorder that never fails. -/
def new : Recorder := failingAt 0 0

def paint (d : Recorder) (x : Fin 64) (y : Fin 32) (on : Bool) :
    Except String Unit × Recorder :=
  if d.writes + 1 = d.failWrite then
    (.error "display write failed", { d with writes := d.writes + 1 })
  else
    (.ok (), { d with shown := d.shown.put (Cell.ofColumnRow x y) on, writes := d.writes + 1 })

def flush (d : Recorder) : Except String Unit × Recorder :=
  (if d.flushes + 1 = d.failFlush then .error "display flush failed" else .ok (),
    { d with flushes := d.flushes + 1 })

instance : Display Recorder := ⟨paint, flush⟩

end Recorder
end Chip8
