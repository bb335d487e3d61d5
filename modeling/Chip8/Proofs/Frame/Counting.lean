import Chip8.Proofs.Frame.Redrawing
import Mathlib.Algebra.BigOperators.Fin

/-!
# How many cells are lit

Drawing a sprite lights as many cells as it has set bits, less twice the bits that fall on lit
cells: those go dark instead. The counts add up because no two bits of a sprite fall on one cell.
Which cells are lit is not said here.
-/
namespace Chip8

namespace Sprite

/-- The number of set bits in the rows that count. -/
def bitCount (sprite : Sprite) : Nat :=
  ((sprite.take 15).map fun byte => (List.range 8).countP byte.toNat.testBit).sum

/-- The number of those set bits that lie on a lit cell. -/
def litBitCount (sprite : Sprite) (x y : UInt8) (f : Frame) : Nat :=
  ((sprite.take 15).zipIdx.map fun (byte, row) =>
    (List.range 8).countP fun column => f.lit (cell x y column row) && bit byte column).sum

/-- Counting from the left gives as many bits as counting from the right. -/
theorem countP_bit (byte : UInt8) :
    (List.range 8).countP (bit byte) = (List.range 8).countP byte.toNat.testBit :=
  calc (List.range 8).countP (bit byte)
      = ((List.range 8).map (7 - ·)).countP byte.toNat.testBit := List.countP_map.symm
    _ = (List.range 8).reverse.countP byte.toNat.testBit := rfl
    _ = (List.range 8).countP byte.toNat.testBit := List.countP_reverse

theorem length_rowCells (x y : UInt8) (row : Nat) (byte : UInt8) :
    (rowCells x y row byte).length = (List.range 8).countP byte.toNat.testBit := by
  rw [rowCells, List.length_map, ← List.countP_eq_length_filter, countP_bit]

theorem length_cells (sprite : Sprite) (x y : UInt8) :
    (sprite.cells x y).length = sprite.bitCount := by
  simp only [cells, List.length_flatMap, length_rowCells]
  show ((sprite.take 15).zipIdx.map
    ((fun byte => (List.range 8).countP byte.toNat.testBit) ∘ Prod.fst)).sum = _
  rw [← List.map_map, List.zipIdx_map_fst, bitCount]

theorem countP_lit_cells (sprite : Sprite) (x y : UInt8) (f : Frame) :
    (sprite.cells x y).countP f.lit = sprite.litBitCount x y f := by
  simp only [cells, List.countP_flatMap, Function.comp_def, rowCells, List.countP_map,
    List.countP_filter, litBitCount]

end Sprite

namespace Frame

variable {cells : List Cell}

theorem litCount_toggle (f : Frame) (c : Cell) :
    (f.toggle c).litCount + 2 * (if f.lit c then 1 else 0) = f.litCount + 1 := by
  have hcount : (f.toggle c).litCount =
      f.litCount - (if f.lit c == true then 1 else 0) + if (!f.lit c) == true then 1 else 0 :=
    Vector.count_set c.isLt
  rw [hcount]
  cases hlit : f.lit c with
  | false => rfl
  | true =>
    have hpos : 0 < f.litCount := Vector.count_pos_iff.mpr (hlit ▸ Vector.getElem_mem c.isLt)
    show f.litCount - 1 + 0 + 2 * 1 = f.litCount + 1
    omega

/-- Inverting different cells lights one for each of them, and takes two back for each that was lit
before. -/
theorem litCount_foldl_strike (hnodup : cells.Nodup) (start : Frame × Bool) :
    (cells.foldl strike start).1.litCount + 2 * cells.countP start.1.lit =
      start.1.litCount + cells.length := by
  induction cells generalizing start with
  | nil => rfl
  | cons c cells ih =>
    have hrest := ih (List.nodup_cons.mp hnodup).2 (strike start c)
    have hothers : cells.countP (strike start c).1.lit = cells.countP start.1.lit :=
      List.countP_congr fun d hd => by rw [lit_strike_of_mem hnodup start hd]
    have hfirst := litCount_toggle start.1 c
    have hstrike : (strike start c).1.litCount = (start.1.toggle c).litCount := rfl
    rw [List.foldl_cons, List.countP_cons, List.length_cons]
    omega

theorem litCount_draw (f : Frame) (sprite : Sprite) (x y : UInt8) :
    (f.draw sprite x y).1.litCount + 2 * sprite.litBitCount x y f =
      f.litCount + sprite.bitCount := by
  rw [draw, ← Sprite.countP_lit_cells, ← Sprite.length_cells sprite x y]
  exact litCount_foldl_strike (Sprite.nodup_cells sprite x y) (f, false)

theorem hit_draw_iff_litBitCount (f : Frame) (sprite : Sprite) (x y : UInt8) :
    (f.draw sprite x y).2 = true ↔ 0 < sprite.litBitCount x y f := by
  rw [hit_draw, ← Sprite.countP_lit_cells, List.countP_pos_iff]
  simp only [Sprite.mem_cells_iff]

/-- Each sprite changes the count by its bits, up to an even number. -/
theorem litCount_drawAll_mod_two (f : Frame) (stamps : List Stamp) :
    (f.drawAll stamps).litCount % 2 =
      (f.litCount + (stamps.map fun s => s.sprite.bitCount).sum) % 2 := by
  induction stamps generalizing f with
  | nil => rfl
  | cons s stamps ih =>
    have hdraw := litCount_draw f s.sprite s.x s.y
    rw [drawAll_cons, ih, List.map_cons, List.sum_cons]
    omega

theorem litCount_blank : blank.litCount = 0 := by
  rw [litCount, Vector.count_eq_zero]
  simp [blank]

/-- Drawing a sprite adds its set bits to the lit cells, less twice those bits that fall on lit
cells, and the flag says whether there are any. From a blank frame on, any number of sprites leaves
as many lit cells as bits were drawn, up to an even number, and never more than there are cells. -/
theorem lit_cells_add_up :
    (∀ (f : Frame) (sprite : Sprite) (x y : UInt8),
      (f.draw sprite x y).1.litCount + 2 * sprite.litBitCount x y f =
          f.litCount + sprite.bitCount ∧
        ((f.draw sprite x y).2 = true ↔ 0 < sprite.litBitCount x y f) ∧
        ((f.draw sprite x y).2 = false ↔
          (f.draw sprite x y).1.litCount = f.litCount + sprite.bitCount)) ∧
    ∀ stamps : List Stamp,
      (blank.drawAll stamps).litCount % 2 =
          (stamps.map fun s => s.sprite.bitCount).sum % 2 ∧
        (blank.drawAll stamps).litCount ≤ 2048 := by
  constructor
  · intro f sprite x y
    have hcount := litCount_draw f sprite x y
    have hhit := hit_draw_iff_litBitCount f sprite x y
    refine ⟨hcount, hhit, ?_⟩
    rw [← Bool.not_eq_true, hhit]
    omega
  · intro stamps
    have hparity := litCount_drawAll_mod_two blank stamps
    rw [litCount_blank, Nat.zero_add] at hparity
    exact ⟨hparity, Vector.count_le_size⟩

end Frame
end Chip8
