import Chip8.Proofs.Frame.Drawing

/-!
# The screen has no edges

A frame can be moved as a whole, round the edges of the screen. Drawing does not notice: what is
drawn on a moved frame, at the place moved as far, is the moved drawing. The place is given by
bytes, and a byte wraps round at a multiple of the screen's width and height, so this holds also
where the place itself wraps. How a single cell is read is not said here.
-/
namespace Chip8

/-- The cell `dx` columns to the right and `dy` rows down, round the edges. -/
def Cell.moved (dx dy : Nat) (c : Cell) : Cell :=
  ofColumnRow ⟨(c.column.val + dx) % 64, by omega⟩ ⟨(c.row.val + dy) % 32, by omega⟩

/-- The frame with each pixel moved `dx` columns to the right and `dy` rows down, round the edges:
a cell shows what lay that far to the left and up. -/
def Frame.shift (f : Frame) (dx dy : Nat) : Frame :=
  ⟨Vector.ofFn fun c : Cell => f.lit (c.moved (64 - dx % 64) (32 - dy % 32))⟩

namespace Cell

variable {dx dy : Nat}

theorem column_moved (dx dy : Nat) (c : Cell) :
    (c.moved dx dy).column.val = (c.column.val + dx) % 64 := by
  rw [moved, column_ofColumnRow]

theorem row_moved (dx dy : Nat) (c : Cell) :
    (c.moved dx dy).row.val = (c.row.val + dy) % 32 := by
  rw [moved, row_ofColumnRow]

/-- Two moves that add up to whole turns of the screen end where they began. -/
theorem moved_moved {dx' dy' : Nat} (hcolumns : (dx + dx') % 64 = 0) (hrows : (dy + dy') % 32 = 0)
    (c : Cell) : (c.moved dx dy).moved dx' dy' = c := by
  have hcolumn := c.column.isLt
  have hrow := c.row.isLt
  apply eq_of_column_row
  · apply Fin.ext
    rw [column_moved, column_moved]
    omega
  · apply Fin.ext
    rw [row_moved, row_moved]
    omega

theorem moved_surjective (dx dy : Nat) (d : Cell) : ∃ c : Cell, c.moved dx dy = d :=
  ⟨d.moved (64 - dx % 64) (32 - dy % 32), moved_moved (by omega) (by omega) d⟩

end Cell

namespace Sprite

/-- A sprite drawn at a moved place covers the moved cells. -/
theorem covers_moved_iff (sprite : Sprite) (x y dx dy : UInt8) (c : Cell) :
    sprite.Covers (x + dx) (y + dy) (c.moved dx.toNat dy.toNat) ↔ sprite.Covers x y c := by
  have hcolumn := c.column.isLt
  have hrow := c.row.isLt
  -- 256 is a multiple of both 64 and 32, so a place that wraps round is the same place
  have hplace : ∀ row column,
      ((c.moved dx.toNat dy.toNat).column.val = ((x + dx).toNat + column) % 64 ∧
          (c.moved dx.toNat dy.toNat).row.val = ((y + dy).toNat + row) % 32) ↔
        c.column.val = (x.toNat + column) % 64 ∧ c.row.val = (y.toNat + row) % 32 := by
    intro row column
    rw [Cell.column_moved, Cell.row_moved, UInt8.toNat_add, UInt8.toNat_add]
    omega
  simp only [Covers, hplace]

end Sprite

namespace Frame

theorem lit_shift (f : Frame) (dx dy : Nat) (c : Cell) :
    (f.shift dx dy).lit (c.moved dx dy) = f.lit c := by
  have hshift : (f.shift dx dy).lit (c.moved dx dy) =
      f.lit ((c.moved dx dy).moved (64 - dx % 64) (32 - dy % 32)) :=
    Vector.getElem_ofFn (c.moved dx dy).isLt
  rw [hshift, Cell.moved_moved (by omega) (by omega)]

/-- Frames are equal if they agree on the moved cells: these are all cells. -/
theorem ext_moved {f g : Frame} (dx dy : Nat)
    (h : ∀ c : Cell, f.lit (c.moved dx dy) = g.lit (c.moved dx dy)) : f = g := by
  apply ext_lit
  intro d
  obtain ⟨c, rfl⟩ := Cell.moved_surjective dx dy d
  exact h c

theorem frame_draw_shift (f : Frame) (sprite : Sprite) (x y dx dy : UInt8) :
    ((f.shift dx.toNat dy.toNat).draw sprite (x + dx) (y + dy)).1 =
      (f.draw sprite x y).1.shift dx.toNat dy.toNat := by
  apply ext_moved dx.toNat dy.toNat
  intro c
  simp only [lit_draw, lit_shift, Sprite.covers_moved_iff]

theorem hit_draw_shift (f : Frame) (sprite : Sprite) (x y dx dy : UInt8) :
    ((f.shift dx.toNat dy.toNat).draw sprite (x + dx) (y + dy)).2 = (f.draw sprite x y).2 := by
  rw [Bool.eq_iff_iff, hit_draw, hit_draw]
  constructor
  · rintro ⟨d, hcovers, hlit⟩
    obtain ⟨c, rfl⟩ := Cell.moved_surjective dx.toNat dy.toNat d
    rw [Sprite.covers_moved_iff] at hcovers
    rw [lit_shift] at hlit
    exact ⟨c, hcovers, hlit⟩
  · rintro ⟨c, hcovers, hlit⟩
    refine ⟨c.moved dx.toNat dy.toNat, ?_, ?_⟩
    · rwa [Sprite.covers_moved_iff]
    · rwa [lit_shift]

/-- Drawing on a moved frame, at the place moved as far, gives the moved drawing and finds the same
cells lit. The pixel of a cell is moved to the cell that many columns to the right and rows down,
round the edges. -/
theorem draw_commutes_with_shift (f : Frame) (sprite : Sprite) (x y dx dy : UInt8) :
    (∀ c : Cell, (f.shift dx.toNat dy.toNat).lit (c.moved dx.toNat dy.toNat) = f.lit c) ∧
      (∀ c : Cell, (c.moved dx.toNat dy.toNat).column.val = (c.column.val + dx.toNat) % 64 ∧
        (c.moved dx.toNat dy.toNat).row.val = (c.row.val + dy.toNat) % 32) ∧
      (f.shift dx.toNat dy.toNat).draw sprite (x + dx) (y + dy) =
        ((f.draw sprite x y).1.shift dx.toNat dy.toNat, (f.draw sprite x y).2) :=
  ⟨lit_shift f _ _, fun c => ⟨Cell.column_moved _ _ c, Cell.row_moved _ _ c⟩,
    Prod.ext (frame_draw_shift f sprite x y dx dy) (hit_draw_shift f sprite x y dx dy)⟩

end Frame
end Chip8
