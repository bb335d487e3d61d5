import Chip8.Limits

/-!
# The frame

The picture on the screen: 64 columns and 32 rows of cells, each lit or dark. Cells are numbered
row by row from the top left corner.
-/
namespace Chip8

/-- The number of a cell: its column, plus 64 for each row above it. -/
abbrev Cell := Fin 2048

namespace Cell

def column (c : Cell) : Fin 64 := ⟨c.val % 64, by omega⟩

def row (c : Cell) : Fin 32 := ⟨c.val / 64, by omega⟩

def ofColumnRow (column : Fin 64) (row : Fin 32) : Cell := ⟨column.val + row.val * 64, by omega⟩

def all : List Cell := List.finRange 2048

end Cell

/-- A picture: the state of each cell, where true is lit. -/
structure Frame where
  cells : Vector Bool 2048
  deriving DecidableEq, Repr

namespace Frame

def blank : Frame := ⟨Vector.replicate 2048 false⟩

def lit (f : Frame) (c : Cell) : Bool := f.cells[c]

/-- Whether the pixel at column `x` of row `y` is lit. Both may leave the screen: a column past the
right edge lies in the next row, and a row past the bottom edge at the top. -/
def pixel (f : Frame) (x y : Nat) : Bool := f.lit ⟨(x + y * 64) % 2048, by omega⟩

def put (f : Frame) (c : Cell) (on : Bool) : Frame := ⟨f.cells.set c on⟩

def toggle (f : Frame) (c : Cell) : Frame := f.put c (!f.lit c)

def litCount (f : Frame) : Nat := f.cells.count true

end Frame

theorem Cell.ofColumnRow_column_row (c : Cell) : Cell.ofColumnRow c.column c.row = c := by
  apply Fin.ext
  simp only [Cell.ofColumnRow, Cell.column, Cell.row]
  omega

theorem Cell.eq_of_column_row {c d : Cell} (hcolumn : c.column = d.column) (hrow : c.row = d.row) :
    c = d := by
  rw [← ofColumnRow_column_row c, hcolumn, hrow, ofColumnRow_column_row]

theorem Cell.column_ofColumnRow (x : Fin 64) (y : Fin 32) : (ofColumnRow x y).column = x := by
  apply Fin.ext
  simp only [ofColumnRow, column]
  omega

theorem Cell.row_ofColumnRow (x : Fin 64) (y : Fin 32) : (ofColumnRow x y).row = y := by
  apply Fin.ext
  simp only [ofColumnRow, row]
  omega

namespace Frame

@[simp] theorem lit_blank (c : Cell) : blank.lit c = false := by
  simp [lit, blank]

/-- A pixel on the screen is the cell at its column and row. -/
theorem pixel_eq_lit (f : Frame) (x : Fin 64) (y : Fin 32) :
    f.pixel x y = f.lit (Cell.ofColumnRow x y) := by
  rw [pixel]
  congr 1
  apply Fin.ext
  exact Nat.mod_eq_of_lt (Cell.ofColumnRow x y).isLt

theorem lit_put (f : Frame) (c d : Cell) (on : Bool) :
    (f.put c on).lit d = if c = d then on else f.lit d := by
  simp only [lit, put, Fin.getElem_fin, Vector.getElem_set, Fin.ext_iff]

theorem lit_toggle (f : Frame) (c d : Cell) :
    (f.toggle c).lit d = if c = d then !f.lit d else f.lit d := by
  rw [toggle, lit_put]
  split
  · next h => rw [h]
  · rfl

theorem ext_lit {f g : Frame} (h : ∀ c, f.lit c = g.lit c) : f = g := by
  cases f with | mk cells => cases g with | mk cells' =>
  congr 1
  exact Vector.ext fun a ha => h ⟨a, ha⟩

end Frame
end Chip8
