import Chip8.Proofs.Frame.Drawing

/-!
# Reading a drawn sprite back

Drawing wraps a column round within its row; reading a pixel does not, and a column past the right
edge lies in a row below. So a bit of a sprite is found again where it was drawn as long as its
column is on the screen, or is wrapped round before it is read. Bits of a sprite across the right
edge are not found at the columns that they were drawn at.
-/
namespace Chip8

/-- The cell that is read for column `x` of row `y`: a column past the right edge lies in the rows
below. -/
def Cell.reading (x y : Nat) : Cell :=
  ofColumnRow ⟨x % 64, by omega⟩ ⟨(y + x / 64) % 32, by omega⟩

theorem Cell.column_row_reading (x y : Nat) :
    (reading x y).column.val = x % 64 ∧ (reading x y).row.val = (y + x / 64) % 32 := by
  rw [reading, column_ofColumnRow, row_ofColumnRow]
  exact ⟨rfl, rfl⟩

namespace Sprite

variable {sprite : Sprite} {x y : UInt8} {row column : Nat}

/-- Where a bit of a sprite is read there lies a bit of the same column, as many rows further down
as the column leaves the screen. -/
theorem covers_reading_iff (hrow : row < 15) (hcolumn : column < 8) :
    sprite.Covers x y (Cell.reading (x.toNat + column) (y.toNat + row)) ↔
      row + (x.toNat + column) / 64 < min sprite.length 15 ∧
        (sprite.getD (row + (x.toNat + column) / 64) 0).toNat.testBit (7 - column) = true := by
  obtain ⟨hcolumnRead, hrowRead⟩ := Cell.column_row_reading (x.toNat + column) (y.toNat + row)
  have hx := x.toNat_lt
  unfold Covers
  rw [hcolumnRead, hrowRead]
  constructor
  · rintro ⟨row', hrow', column', hcolumn', hbit, hsameColumn, hsameRow⟩
    -- a sprite is narrower and lower than the screen, so no other bit lies there
    obtain rfl : column' = column := by omega
    obtain rfl : row' = row + (x.toNat + column') / 64 := by omega
    exact ⟨hrow', hbit⟩
  · rintro ⟨hlt, hbit⟩
    exact ⟨_, hlt, column, hcolumn, hbit, rfl, by omega⟩

/-- With its column wrapped round, a bit is read where it lies. -/
theorem covers_reading_wrapped_iff (hrow : row < min sprite.length 15) (hcolumn : column < 8) :
    sprite.Covers x y (Cell.reading ((x.toNat + column) % 64) (y.toNat + row)) ↔
      (sprite.getD row 0).toNat.testBit (7 - column) = true := by
  obtain ⟨hcolumnRead, hrowRead⟩ := Cell.column_row_reading ((x.toNat + column) % 64) (y.toNat + row)
  unfold Covers
  rw [hcolumnRead, hrowRead]
  constructor
  · rintro ⟨row', hrow', column', hcolumn', hbit, hsameColumn, hsameRow⟩
    obtain rfl : column' = column := by omega
    obtain rfl : row' = row := by omega
    exact hbit
  · intro hbit
    exact ⟨row, hrow, column, hcolumn, hbit, by omega, by omega⟩

end Sprite

namespace Frame

theorem pixel_eq_lit_reading (f : Frame) (x y : Nat) : f.pixel x y = f.lit (Cell.reading x y) := by
  rw [pixel]
  congr 1
  apply Fin.ext
  show (x + y * 64) % 2048 = x % 64 + (y + x / 64) % 32 * 64
  omega

/-- Drawing changes the pixels that are read in a cell that the sprite covers. -/
theorem pixel_draw_ne_iff (f : Frame) (sprite : Sprite) (x y : UInt8) (column row : Nat) :
    (f.draw sprite x y).1.pixel column row ≠ f.pixel column row ↔
      sprite.Covers x y (Cell.reading column row) := by
  rw [pixel_eq_lit_reading, pixel_eq_lit_reading, lit_draw]
  by_cases h : sprite.Covers x y (Cell.reading column row)
  · rw [if_pos h]
    simp [h]
  · rw [if_neg h]
    simp [h]

/-- After a sprite is drawn, what is read at the column and the row of one of its bits has changed
just if the bit is set that lies there: a bit of the same column, one row further down for each time
that the column passes the right edge. For a column on the screen it is the bit itself, whether or
not its row is on the screen, and so it is for a column that is wrapped round before it is read. -/
theorem drawn_bits_read_back (f : Frame) (sprite : Sprite) (x y : UInt8) (row column : Nat)
    (hrow : row < min sprite.length 15) (hcolumn : column < 8) :
    ((f.draw sprite x y).1.pixel (x.toNat + column) (y.toNat + row) ≠
          f.pixel (x.toNat + column) (y.toNat + row) ↔
        row + (x.toNat + column) / 64 < min sprite.length 15 ∧
          (sprite.getD (row + (x.toNat + column) / 64) 0).toNat.testBit (7 - column) = true) ∧
      (x.toNat + column < 64 →
        ((f.draw sprite x y).1.pixel (x.toNat + column) (y.toNat + row) ≠
            f.pixel (x.toNat + column) (y.toNat + row) ↔
          (sprite.getD row 0).toNat.testBit (7 - column) = true)) ∧
      ((f.draw sprite x y).1.pixel ((x.toNat + column) % 64) (y.toNat + row) ≠
          f.pixel ((x.toNat + column) % 64) (y.toNat + row) ↔
        (sprite.getD row 0).toNat.testBit (7 - column) = true) := by
  have hwrapped := Sprite.covers_reading_wrapped_iff (x := x) (y := y) hrow hcolumn
  rw [pixel_draw_ne_iff, pixel_draw_ne_iff, hwrapped]
  refine ⟨Sprite.covers_reading_iff (Nat.lt_of_lt_of_le hrow (Nat.min_le_right _ _)) hcolumn,
    fun hinside => ?_, Iff.rfl⟩
  rwa [Nat.mod_eq_of_lt hinside] at hwrapped

/-- A sprite at the lower right corner, read at a column on the screen and a row past the bottom. -/
theorem drawn_bits_read_back_below_bottom :
    let sprite : Sprite := [0xFF, 0x81]
    1 < min sprite.length 15 ∧ 0 < 8 ∧ (62 : UInt8).toNat + 0 < 64 ∧
      (blank.draw sprite 62 31).1.pixel 62 32 ≠ blank.pixel 62 32 := by
  intro sprite
  have hrow : 1 < min sprite.length 15 := by decide
  have hinside : (62 : UInt8).toNat + 0 < 64 := by decide
  obtain ⟨-, hread, -⟩ := drawn_bits_read_back blank sprite 62 31 1 0 hrow (by decide)
  exact ⟨hrow, by decide, hinside, (hread hinside).mpr (by decide)⟩

/-- One row of eight pixels across the right edge. Its third pixel is drawn in column 0 of row 4;
reading column 64 of row 4 finds column 0 of row 5, which has not changed. -/
theorem wrapped_column_not_read_back :
    let sprite : Sprite := [0xFF]
    0 < min sprite.length 15 ∧ 2 < 8 ∧ (sprite.getD 0 0).toNat.testBit (7 - 2) = true ∧
      (blank.draw sprite 62 4).1.pixel ((62 : UInt8).toNat + 2) ((4 : UInt8).toNat + 0) =
        blank.pixel ((62 : UInt8).toNat + 2) ((4 : UInt8).toNat + 0) := by
  decide +kernel

end Frame
end Chip8
