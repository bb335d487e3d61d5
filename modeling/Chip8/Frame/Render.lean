import Chip8.Display
import Chip8.Fault
import Chip8.Frame.Basic

/-!
# Showing a frame

The cells go to the display row by row and are followed by one flush. The first call that fails is
the last one made, and its message is the fault.
-/
namespace Chip8.Frame

variable {δ : Type} [Display δ]

/-- Makes the pixels shown so far visible. -/
def finish (display : δ) : Except Fault Unit × δ :=
  match Display.flush display with
  | (.ok (), display) => (.ok (), display)
  | (.error message, display) => (.error (.device message), display)

/-- Shows the given cells one after the other, then finishes. -/
def renderCells (f : Frame) : List Cell → δ → Except Fault Unit × δ
  | [], display => finish display
  | c :: cells, display =>
    match Display.paint display c.column c.row (f.lit c) with
    | (.ok (), display) => renderCells f cells display
    | (.error message, display) => (.error (.device message), display)

def render (f : Frame) (display : δ) : Except Fault Unit × δ := f.renderCells Cell.all display

theorem render_eq (f : Frame) (display : δ) :
    f.render display = f.renderCells Cell.all display := rfl

-- or else a proof about a caller of `render` unrolls all 2048 cells
attribute [irreducible] render

end Chip8.Frame
