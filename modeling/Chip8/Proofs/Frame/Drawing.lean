import Chip8.Frame.Sprite
import Mathlib.Data.Fintype.Basic

/-!
# What drawing a sprite inverts

`Covers` says which cells a sprite covers: those of its set bits, where columns and rows wrap round
at the edges of the screen. No two bits of the rows that count come to lie on one cell, so a sprite
inverts just the cells that it covers, and finds each of them as it was before. Where the sprite's
bytes and its place come from is not said here.
-/
namespace Chip8

namespace Sprite

/-- A set bit of one of the first fifteen rows lies on this cell, if the top left corner lies at
`x`, `y`. -/
def Covers (sprite : Sprite) (x y : UInt8) (c : Cell) : Prop :=
  ∃ row < min sprite.length 15, ∃ column < 8,
    (sprite.getD row 0).toNat.testBit (7 - column) = true ∧
      c.column.val = (x.toNat + column) % 64 ∧ c.row.val = (y.toNat + row) % 32

instance (sprite : Sprite) (x y : UInt8) (c : Cell) : Decidable (sprite.Covers x y c) :=
  inferInstanceAs (Decidable (∃ row < min sprite.length 15, ∃ column < 8,
    (sprite.getD row 0).toNat.testBit (7 - column) = true ∧
      c.column.val = (x.toNat + column) % 64 ∧ c.row.val = (y.toNat + row) % 32))

variable {x y : UInt8} {row row' column column' : Nat} {byte : UInt8} {c : Cell}

/-- The remainder of a cell's number wraps its row on its own. -/
theorem column_row_cell (x y : UInt8) (column row : Nat) :
    (cell x y column row).column.val = (x.toNat + column) % 64 ∧
      (cell x y column row).row.val = (y.toNat + row) % 32 := by
  simp only [cell, Cell.column, Cell.row]
  omega

theorem eq_cell_iff : c = cell x y column row ↔
    c.column.val = (x.toNat + column) % 64 ∧ c.row.val = (y.toNat + row) % 32 := by
  obtain ⟨hcolumn, hrow⟩ := column_row_cell x y column row
  constructor
  · rintro rfl
    exact ⟨hcolumn, hrow⟩
  · rintro ⟨hcolumn', hrow'⟩
    exact Cell.eq_of_column_row (Fin.ext (hcolumn'.trans hcolumn.symm))
      (Fin.ext (hrow'.trans hrow.symm))

/-- A sprite is narrower and lower than the screen, so its bits lie apart. -/
theorem cell_inj (hcolumn : column < 8) (hcolumn' : column' < 8) (hrow : row < 15)
    (hrow' : row' < 15) (h : cell x y column row = cell x y column' row') :
    column = column' ∧ row = row' := by
  obtain ⟨hc, hr⟩ := eq_cell_iff.mp h
  obtain ⟨hc', hr'⟩ := column_row_cell x y column row
  constructor
  · omega
  · omega

theorem mem_rowCells_iff : c ∈ rowCells x y row byte ↔
    ∃ column < 8, byte.toNat.testBit (7 - column) = true ∧ c = cell x y column row := by
  simp only [rowCells, bit, List.mem_map, List.mem_filter, List.mem_range, and_assoc,
    eq_comm (a := c)]

theorem mem_zipIdx_iff {sprite : Sprite} : (byte, row) ∈ (sprite.take 15).zipIdx ↔
    row < min sprite.length 15 ∧ sprite.getD row 0 = byte := by
  rw [List.mk_mem_zipIdx_iff_getElem?, List.getElem?_take, List.getD_eq_getElem?_getD]
  by_cases hrow : row < sprite.length
  · rw [List.getElem?_eq_getElem hrow, Option.getD_some]
    split
    · next hlt => rw [Option.some.injEq, and_iff_right (Nat.lt_min.mpr ⟨hrow, hlt⟩)]
    · next hle => exact iff_of_false (by simp) fun h => hle (Nat.lt_min.mp h.1).2
  · rw [List.getElem?_eq_none (Nat.not_lt.mp hrow), ite_self]
    exact iff_of_false (by simp) fun h => hrow (Nat.lt_min.mp h.1).1

/-- The cells that a sprite inverts are those that it covers. -/
theorem mem_cells_iff {sprite : Sprite} : c ∈ sprite.cells x y ↔ sprite.Covers x y c := by
  unfold cells Covers
  rw [List.mem_flatMap]
  constructor
  · rintro ⟨⟨byte, row⟩, hrow, hc⟩
    obtain ⟨hlt, rfl⟩ := mem_zipIdx_iff.mp hrow
    obtain ⟨column, hcolumn, hbit, heq⟩ := mem_rowCells_iff.mp hc
    exact ⟨row, hlt, column, hcolumn, hbit, eq_cell_iff.mp heq⟩
  · rintro ⟨row, hlt, column, hcolumn, hbit, hplace⟩
    exact ⟨(sprite.getD row 0, row), mem_zipIdx_iff.mpr ⟨hlt, rfl⟩,
      mem_rowCells_iff.mpr ⟨column, hcolumn, hbit, eq_cell_iff.mpr hplace⟩⟩

theorem nodup_rowCells (x y : UInt8) (hrow : row < 15) (byte : UInt8) :
    (rowCells x y row byte).Nodup := by
  refine List.Nodup.map_on ?_ (List.nodup_range.filter _)
  intro column hcolumn column' hcolumn' h
  have hlt := List.mem_range.mp (List.mem_filter.mp hcolumn).1
  have hlt' := List.mem_range.mp (List.mem_filter.mp hcolumn').1
  exact (cell_inj hlt hlt' hrow hrow h).1

/-- No cell is inverted twice. -/
theorem nodup_cells (sprite : Sprite) (x y : UInt8) : (sprite.cells x y).Nodup := by
  have hlt : ∀ p ∈ (sprite.take 15).zipIdx, p.2 < 15 := by
    intro p hp
    have hlength := List.snd_lt_of_mem_zipIdx hp
    rw [List.length_take] at hlength
    omega
  refine List.nodup_flatMap.mpr ⟨fun p hp => nodup_rowCells x y (hlt p hp) p.1, ?_⟩
  -- two rows have different numbers, so they have no cell in common
  have hrows : (sprite.take 15).zipIdx.Pairwise fun p q => p.2 ≠ q.2 := by
    apply List.pairwise_map.mp
    rw [List.zipIdx_map_snd]
    exact List.nodup_range'
  refine hrows.imp_of_mem ?_
  intro p q hp hq hne c hc hc'
  obtain ⟨column, hcolumn, -, rfl⟩ := mem_rowCells_iff.mp hc
  obtain ⟨column', hcolumn', -, heq⟩ := mem_rowCells_iff.mp hc'
  exact hne (cell_inj hcolumn hcolumn' (hlt p hp) (hlt q hq) heq).2

end Sprite

namespace Frame

variable {cells : List Cell} {d : Cell}

theorem lit_strike (start : Frame × Bool) (c d : Cell) :
    (strike start c).1.lit d = if c = d then !start.1.lit d else start.1.lit d :=
  lit_toggle start.1 c d

/-- The first of several different cells is none of the others, which stay as they are. -/
theorem lit_strike_of_mem {c : Cell} (hnodup : (c :: cells).Nodup) (start : Frame × Bool)
    (hd : d ∈ cells) : (strike start c).1.lit d = start.1.lit d := by
  have hne : c ≠ d := fun h => (List.nodup_cons.mp hnodup).1 (h ▸ hd)
  rw [lit_strike, if_neg hne]

theorem lit_foldl_strike (hnodup : cells.Nodup) (start : Frame × Bool) (d : Cell) :
    (cells.foldl strike start).1.lit d =
      if d ∈ cells then !start.1.lit d else start.1.lit d := by
  induction cells generalizing start with
  | nil => rfl
  | cons c cells ih =>
    obtain ⟨hc, hcells⟩ := List.nodup_cons.mp hnodup
    rw [List.foldl_cons, ih hcells, lit_strike]
    by_cases hd : c = d
    · subst hd
      rw [if_neg hc, if_pos rfl, if_pos List.mem_cons_self]
    · simp only [if_neg hd, List.mem_cons, or_iff_right (Ne.symm hd)]

theorem hit_foldl_strike (hnodup : cells.Nodup) (start : Frame × Bool) :
    (cells.foldl strike start).2 = true ↔
      start.2 = true ∨ ∃ d ∈ cells, start.1.lit d = true := by
  induction cells generalizing start with
  | nil => simp
  | cons c cells ih =>
    have hothers : (∃ d ∈ cells, (strike start c).1.lit d = true) ↔
        ∃ d ∈ cells, start.1.lit d = true :=
      exists_congr fun d => and_congr_right fun hd => by
        rw [lit_strike_of_mem hnodup start hd]
    have hfirst : (strike start c).2 = (start.2 || start.1.lit c) := rfl
    rw [List.foldl_cons, ih (List.nodup_cons.mp hnodup).2, hothers, hfirst, Bool.or_eq_true,
      or_assoc, List.exists_mem_cons_iff]

theorem lit_draw (f : Frame) (sprite : Sprite) (x y : UInt8) (c : Cell) :
    (f.draw sprite x y).1.lit c = if sprite.Covers x y c then !f.lit c else f.lit c := by
  rw [draw, lit_foldl_strike (Sprite.nodup_cells sprite x y)]
  simp only [Sprite.mem_cells_iff]

theorem hit_draw (f : Frame) (sprite : Sprite) (x y : UInt8) :
    (f.draw sprite x y).2 = true ↔ ∃ c, sprite.Covers x y c ∧ f.lit c = true := by
  rw [draw, hit_foldl_strike (Sprite.nodup_cells sprite x y)]
  simp only [Sprite.mem_cells_iff, Bool.false_eq_true, false_or]

/-- Drawing a sprite inverts the cells that it covers and leaves the others alone, and the flag says
whether one of the covered cells was lit before. A bit lies at the column and the row that it has
after each has wrapped round on its own, and no two bits lie on one cell. -/
theorem draw_inverts_covered (f : Frame) (sprite : Sprite) (x y : UInt8) :
    (∀ c, (f.draw sprite x y).1.lit c = if sprite.Covers x y c then !f.lit c else f.lit c) ∧
      ((f.draw sprite x y).2 = true ↔ ∃ c, sprite.Covers x y c ∧ f.lit c = true) ∧
      (∀ column row, (Sprite.cell x y column row).column.val = (x.toNat + column) % 64 ∧
        (Sprite.cell x y column row).row.val = (y.toNat + row) % 32) ∧
      (sprite.cells x y).Nodup :=
  ⟨lit_draw f sprite x y, hit_draw f sprite x y, Sprite.column_row_cell x y,
    Sprite.nodup_cells sprite x y⟩

end Frame
end Chip8
