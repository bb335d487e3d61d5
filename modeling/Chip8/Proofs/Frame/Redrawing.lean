import Chip8.Proofs.Frame.Drawing

/-!
# Drawing many sprites

Sprites that are drawn one after the other invert each cell as often as they cover it, whatever the
frame: `lit_drawAll`. So their order does not matter, and drawing all of them again, in any order,
gives the frame back. Which draws find a lit cell does depend on the order and is not said here.
-/
namespace Chip8

/-- A sprite and the place of its top left corner. -/
structure Stamp where
  sprite : Sprite
  x : UInt8
  y : UInt8
  deriving DecidableEq, Repr

/-- A set bit of the sprite lies on this cell. -/
def Stamp.Covers (s : Stamp) (c : Cell) : Prop := s.sprite.Covers s.x s.y c

instance (s : Stamp) (c : Cell) : Decidable (s.Covers c) :=
  inferInstanceAs (Decidable (s.sprite.Covers s.x s.y c))

namespace Frame

/-- Draws the sprites one after the other. -/
def drawAll (f : Frame) (stamps : List Stamp) : Frame :=
  stamps.foldl (fun f s => (f.draw s.sprite s.x s.y).1) f

variable {f : Frame} {stamps permuted : List Stamp}

theorem drawAll_cons (f : Frame) (s : Stamp) (stamps : List Stamp) :
    f.drawAll (s :: stamps) = (f.draw s.sprite s.x s.y).1.drawAll stamps := rfl

theorem drawAll_append (f : Frame) (first second : List Stamp) :
    f.drawAll (first ++ second) = (f.drawAll first).drawAll second :=
  List.foldl_append

/-- A cell is inverted if an odd number of sprites cover it. -/
theorem lit_drawAll (f : Frame) (stamps : List Stamp) (c : Cell) :
    (f.drawAll stamps).lit c =
      if stamps.countP (fun s => s.Covers c) % 2 = 1 then !f.lit c else f.lit c := by
  induction stamps generalizing f with
  | nil => rfl
  | cons s stamps ih =>
    rw [drawAll_cons, ih, lit_draw, List.countP_cons]
    generalize stamps.countP (fun s => s.Covers c) = covering
    by_cases hs : s.Covers c
    · have hdraw : s.sprite.Covers s.x s.y c := hs
      rw [if_pos hdraw, if_pos (decide_eq_true hs), Bool.not_not]
      rcases Nat.mod_two_eq_zero_or_one covering with h | h
      · rw [if_neg (by omega), if_pos (by omega)]
      · rw [if_pos h, if_neg (by omega)]
    · have hdraw : ¬ s.sprite.Covers s.x s.y c := hs
      rw [if_neg hdraw, decide_eq_false hs]
      rfl

theorem drawAll_perm (f : Frame) (h : stamps.Perm permuted) :
    f.drawAll permuted = f.drawAll stamps := by
  apply ext_lit
  intro c
  rw [lit_drawAll, lit_drawAll, h.countP_eq]

theorem drawAll_twice (f : Frame) (h : stamps.Perm permuted) :
    (f.drawAll stamps).drawAll permuted = f := by
  apply ext_lit
  intro c
  rw [← drawAll_append, lit_drawAll, List.countP_append, h.countP_eq]
  exact if_neg (by omega)

theorem frame_draw_twice (f : Frame) (sprite : Sprite) (x y : UInt8) :
    ((f.draw sprite x y).1.draw sprite x y).1 = f := by
  apply ext_lit
  intro c
  rw [lit_draw, lit_draw]
  by_cases hcovers : sprite.Covers x y c
  · rw [if_pos hcovers, if_pos hcovers, Bool.not_not]
  · rw [if_neg hcovers, if_neg hcovers]

/-- The second time the sprite finds lit what was dark the first time. -/
theorem hit_draw_twice (f : Frame) (sprite : Sprite) (x y : UInt8) :
    ((f.draw sprite x y).1.draw sprite x y).2 = true ↔
      ∃ c, sprite.Covers x y c ∧ f.lit c = false := by
  rw [hit_draw]
  refine exists_congr fun c => and_congr_right fun hcovers => ?_
  rw [lit_draw, if_pos hcovers, Bool.not_eq_true']

/-- Each cell is inverted once for every sprite that covers it, in whatever order the sprites are
drawn, and drawing them all once more gives the frame back. -/
theorem draws_commute_and_cancel (f : Frame) (stamps permuted : List Stamp)
    (h : stamps.Perm permuted) :
    (∀ c, (f.drawAll stamps).lit c =
        if stamps.countP (fun s => s.Covers c) % 2 = 1 then !f.lit c else f.lit c) ∧
      f.drawAll permuted = f.drawAll stamps ∧ (f.drawAll stamps).drawAll permuted = f :=
  ⟨lit_drawAll f stamps, drawAll_perm f h, drawAll_twice f h⟩

/-- Two sprites that overlap at the lower right corner of the screen. -/
theorem draws_commute_and_cancel_overlapping :
    let stamps : List Stamp := [⟨[0xFF, 0x81], 62, 31⟩, ⟨[0xC0], 63, 31⟩]
    stamps.Perm stamps.reverse ∧
      (∀ c, (blank.drawAll stamps).lit c =
        if stamps.countP (fun s => s.Covers c) % 2 = 1 then !blank.lit c else blank.lit c) ∧
      blank.drawAll stamps.reverse = blank.drawAll stamps ∧
      (blank.drawAll stamps).drawAll stamps.reverse = blank := by
  intro stamps
  have hperm : stamps.Perm stamps.reverse := (List.reverse_perm stamps).symm
  exact ⟨hperm, draws_commute_and_cancel blank stamps stamps.reverse hperm⟩

end Frame
end Chip8
