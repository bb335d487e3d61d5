import Chip8.Frame.Basic

/-!
# Sprites

A sprite is a list of bytes, one a row, with the most significant bit leftmost; only the first
fifteen rows count. Drawing inverts a cell for each set bit. The column wraps round on its own; the
row does so because the number of the cell does.
-/
namespace Chip8

abbrev Sprite := List UInt8

namespace Sprite

/-- Whether the bit for column `column` of a row is set; column 0 is the leftmost. -/
def bit (byte : UInt8) (column : Nat) : Bool := byte.toNat.testBit (7 - column)

/-- The cell that is `column` cells right of `x` and `row` cells below `y`. -/
def cell (x y : UInt8) (column row : Nat) : Cell :=
  ⟨((x.toNat + column) % 64 + (y.toNat + row) * 64) % 2048, by omega⟩

def rowCells (x y : UInt8) (row : Nat) (byte : UInt8) : List Cell :=
  ((List.range 8).filter (bit byte)).map fun column => cell x y column row

/-- The cells that a sprite inverts with its top left corner at `x`, `y`, row by row. -/
def cells (sprite : Sprite) (x y : UInt8) : List Cell :=
  (sprite.take 15).zipIdx.flatMap fun (byte, row) => rowCells x y row byte

end Sprite

namespace Frame

/-- Inverts one cell, and notes in the flag whether it was lit. -/
def strike : Frame × Bool → Cell → Frame × Bool
  | (f, hit), c =>
    let struck := hit || f.lit c
    (f.toggle c, struck)

/-- Draws a sprite with its top left corner at `x`, `y`. The flag says whether a lit cell went
dark on the way. -/
def draw (f : Frame) (sprite : Sprite) (x y : UInt8) : Frame × Bool :=
  (sprite.cells x y).foldl strike (f, false)

end Frame
end Chip8
