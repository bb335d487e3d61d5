import Chip8.Display
import Chip8.Frame.Render

/-!
# Displays that work

A `Reading` says how to read a display that does not fail: what it shows and how often it has been
written to and flushed. Showing such a display a frame succeeds, replaces all it showed and takes
one write for every cell and one flush. Displays that fail are not covered.
-/
namespace Chip8

/-- How to read displays of type `δ`, of which those that satisfy `works` never fail. -/
structure Display.Reading (δ : Type) [Display δ] where
  works : δ → Prop
  shown : δ → Frame
  writes : δ → Nat
  flushes : δ → Nat
  paint_works : ∀ d x y on, works d → ∃ d', Display.paint d x y on = (.ok (), d') ∧ works d' ∧
    shown d' = (shown d).put (Cell.ofColumnRow x y) on ∧ writes d' = writes d + 1 ∧
    flushes d' = flushes d
  flush_works : ∀ d, works d → ∃ d', Display.flush d = (.ok (), d') ∧ works d' ∧
    shown d' = shown d ∧ writes d' = writes d ∧ flushes d' = flushes d + 1

/-- A recorder that is set to fail at no call is read off its fields. -/
def Recorder.reading : Display.Reading Recorder where
  works d := d.failWrite = 0 ∧ d.failFlush = 0
  shown := shown
  writes := writes
  flushes := flushes
  paint_works := by
    intro d x y on hd
    have hne : d.writes + 1 ≠ d.failWrite := by
      rw [hd.1]
      exact Nat.succ_ne_zero _
    refine ⟨{ d with
      shown := d.shown.put (Cell.ofColumnRow x y) on, writes := d.writes + 1 },
      ?_, hd, rfl, rfl, rfl⟩
    show d.paint x y on = _
    rw [paint, if_neg hne]
  flush_works := by
    intro d hd
    have hne : d.flushes + 1 ≠ d.failFlush := by
      rw [hd.2]
      exact Nat.succ_ne_zero _
    refine ⟨{ d with flushes := d.flushes + 1 }, ?_, hd, rfl, rfl, rfl⟩
    show d.flush = _
    rw [flush, if_neg hne]

@[simp] theorem Recorder.shown_reading (d : Recorder) : reading.shown d = d.shown := rfl

@[simp] theorem Recorder.writes_reading (d : Recorder) : reading.writes d = d.writes := rfl

@[simp] theorem Recorder.flushes_reading (d : Recorder) : reading.flushes d = d.flushes := rfl

namespace Frame

theorem lit_foldl_put (f g : Frame) (cells : List Cell) (c : Cell)
    (h : c ∈ cells ∨ g.lit c = f.lit c) :
    (cells.foldl (fun g d => g.put d (f.lit d)) g).lit c = f.lit c := by
  induction cells generalizing g with
  | nil =>
    rcases h with hin | hsame
    · exact absurd hin List.not_mem_nil
    · exact hsame
  | cons d cells ih =>
    rw [List.foldl_cons]
    apply ih
    by_cases hd : d = c
    · right
      rw [lit_put, if_pos hd, hd]
    · rcases h with hin | hsame
      · rcases List.mem_cons.mp hin with hc | hin
        · exact absurd hc.symm hd
        · exact .inl hin
      · right
        rw [lit_put, if_neg hd, hsame]

theorem foldl_put_all (f g : Frame) :
    Cell.all.foldl (fun g d => g.put d (f.lit d)) g = f := by
  apply ext_lit
  intro c
  exact lit_foldl_put f g Cell.all c (.inl (List.mem_finRange c))

variable {δ : Type} [Display δ] (reading : Display.Reading δ)

theorem renderCells_works (f : Frame) (cells : List Cell) {d : δ} (hd : reading.works d) :
    ∃ d', f.renderCells cells d = (.ok (), d') ∧ reading.works d' ∧
      reading.shown d' = cells.foldl (fun g c => g.put c (f.lit c)) (reading.shown d) ∧
      reading.writes d' = reading.writes d + cells.length ∧
      reading.flushes d' = reading.flushes d + 1 := by
  induction cells generalizing d with
  | nil =>
    obtain ⟨d', hflush, hworks, hshown, hwrites, hflushes⟩ := reading.flush_works d hd
    exact ⟨d', by rw [renderCells, finish, hflush], hworks, hshown, hwrites, hflushes⟩
  | cons c cells ih =>
    obtain ⟨painted, hpaint, hworks, hshown, hwrites, hflushes⟩ :=
      reading.paint_works d c.column c.row (f.lit c) hd
    obtain ⟨d', hrest, hworks', hshown', hwrites', hflushes'⟩ := ih hworks
    rw [Cell.ofColumnRow_column_row] at hshown
    refine ⟨d', by rw [renderCells, hpaint]; exact hrest, hworks', ?_, ?_, ?_⟩
    · rw [hshown', hshown, List.foldl_cons]
    · rw [hwrites', hwrites, List.length_cons]
      omega
    · rw [hflushes', hflushes]

/-- A display that works shows the frame it was given last. -/
theorem render_works (f : Frame) {d : δ} (hd : reading.works d) :
    ∃ d', f.render d = (.ok (), d') ∧ reading.works d' ∧ reading.shown d' = f ∧
      reading.writes d' = reading.writes d + 2048 ∧
      reading.flushes d' = reading.flushes d + 1 := by
  obtain ⟨d', hrender, hworks, hshown, hwrites, hflushes⟩ :=
    renderCells_works reading f Cell.all hd
  rw [foldl_put_all] at hshown
  rw [Cell.all, List.length_finRange] at hwrites
  rw [← render_eq] at hrender
  exact ⟨d', hrender, hworks, hshown, hwrites, hflushes⟩

end Frame
end Chip8
