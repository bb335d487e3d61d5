import Chip8.Proofs.Display.Reading

/-!
# Displays that fail

Showing a frame makes one call after the other, and the first call that fails is the last one made.
`FailsAt` says which one that was: the paint of a cell, all cells before it having been painted, or
the flush behind them all. A `Recording` reads what such a display shows, so that the cells painted
by then show the frame. What a display does after it has failed is not said here.
-/
namespace Chip8

/-- How to read displays of type `δ` that may fail: a paint that succeeds changes its cell, and
nothing else changes what is shown. -/
structure Display.Recording (δ : Type) [Display δ] where
  shown : δ → Frame
  paint_ok : ∀ d x y on d', Display.paint d x y on = (.ok (), d') →
    shown d' = (shown d).put (Cell.ofColumnRow x y) on
  paint_error : ∀ d x y on message d', Display.paint d x y on = (.error message, d') →
    shown d' = shown d
  flush_keeps : ∀ d, shown (Display.flush d).2 = shown d

/-- A recorder is read off its cells, whichever calls it is set to fail at. -/
def Recorder.recording : Display.Recording Recorder where
  shown := shown
  paint_ok := by
    intro d x y on d' h
    change d.paint x y on = _ at h
    unfold paint at h
    split at h
    · cases h
    · cases h
      rfl
  paint_error := by
    intro d x y on message d' h
    change d.paint x y on = _ at h
    unfold paint at h
    split at h
    · cases h
      rfl
    · cases h
  flush_keeps _ := rfl

namespace Cell

theorem take_all_of_split {before after : List Cell} {c : Cell}
    (h : all = before ++ c :: after) : before = all.take c := by
  have hlength : before.length < all.length := by
    rw [h, List.length_append, List.length_cons]
    omega
  have hthere : all[before.length] = c := by
    simp only [h, List.getElem_append_right (Nat.le_refl _), Nat.sub_self, List.getElem_cons_zero]
  have hcount : c.val = before.length := by
    rw [← hthere]
    exact congrArg Fin.val (List.getElem_finRange _)
  rw [hcount, h, List.take_left' rfl]

theorem mem_take_all {c : Cell} {count : Nat} (h : c.val < count) : c ∈ all.take count := by
  have hlength : c.val < all.length := Nat.lt_of_lt_of_eq c.isLt (List.length_finRange).symm
  rw [List.mem_take_iff_getElem]
  exact ⟨c.val, Nat.lt_min.mpr ⟨h, hlength⟩, List.getElem_finRange _⟩

end Cell

namespace Frame

variable {δ : Type} [Display δ] {f : Frame} {d d' : δ} {cells : List Cell}

/-- The display is painted the given cells in turn, and no paint fails. -/
inductive Painted (f : Frame) : List Cell → δ → δ → Prop where
  | nil (d : δ) : Painted f [] d d
  | cons {c : Cell} {cells : List Cell} {d painted d' : δ}
    (first : Display.paint d c.column c.row (f.lit c) = (.ok (), painted))
    (rest : Painted f cells painted d') : Painted f (c :: cells) d d'

/-- Showing the frame fails with the message once this many cells have been painted. -/
inductive FailsAt (f : Frame) (d : δ) (message : String) (d' : δ) : Nat → Prop where
  | paint {painted : δ} (c : Cell) (before : Painted f (Cell.all.take c) d painted)
    (fails : Display.paint painted c.column c.row (f.lit c) = (.error message, d')) :
    FailsAt f d message d' c
  | flush {painted : δ} (before : Painted f Cell.all d painted)
    (fails : Display.flush painted = (.error message, d')) : FailsAt f d message d' 2048

/-- The display is shown the frame this many times in turn, and never fails. -/
inductive Rendered (f : Frame) : Nat → δ → δ → Prop where
  | zero (d : δ) : Rendered f 0 d d
  | succ {count : Nat} {d shown d' : δ} (first : f.render d = (.ok (), shown))
    (rest : Rendered f count shown d') : Rendered f (count + 1) d d'

theorem finish_error {fault : Fault} (h : finish d = (.error fault, d')) :
    ∃ message, fault = .device message ∧ Display.flush d = (.error message, d') := by
  unfold finish at h
  split at h
  · cases h
  · next message display hflush =>
    cases h
    exact ⟨message, rfl, hflush⟩

theorem renderCells_of_painted (h : Painted f cells d d') (more : List Cell) :
    f.renderCells (cells ++ more) d = f.renderCells more d' := by
  induction h with
  | nil d => rfl
  | cons first rest ih => rw [List.cons_append, renderCells, first]; exact ih

/-- The cells are all painted, or one of them is the first that fails. -/
theorem painted_or_fails (f : Frame) (cells : List Cell) (d : δ) :
    (∃ painted, Painted f cells d painted) ∨
      ∃ before c after painted message d', cells = before ++ c :: after ∧
        Painted f before d painted ∧
        Display.paint painted c.column c.row (f.lit c) = (.error message, d') := by
  induction cells generalizing d with
  | nil => exact .inl ⟨d, .nil d⟩
  | cons c cells ih =>
    rcases hpaint : Display.paint d c.column c.row (f.lit c) with ⟨message | ⟨⟩, painted⟩
    · exact .inr ⟨[], c, cells, d, message, painted, rfl, .nil d, hpaint⟩
    · rcases ih painted with ⟨all, hall⟩ | ⟨before, e, after, all, message, d', rfl, hbefore, hfails⟩
      · exact .inl ⟨all, .cons hpaint hall⟩
      · exact .inr ⟨c :: before, e, after, all, message, d', rfl, .cons hpaint hbefore, hfails⟩

/-- Painting cells and flushing fails at a cell, all before it having been painted, or at the
flush. -/
theorem renderCells_error {fault : Fault} (h : f.renderCells cells d = (.error fault, d')) :
    ∃ message painted, fault = .device message ∧
      ((∃ before c after, cells = before ++ c :: after ∧ Painted f before d painted ∧
          Display.paint painted c.column c.row (f.lit c) = (.error message, d')) ∨
        (Painted f cells d painted ∧ Display.flush painted = (.error message, d'))) := by
  rcases painted_or_fails f cells d with ⟨painted, hall⟩ | ⟨before, c, after, painted, message,
    failed, rfl, hbefore, hfails⟩
  · have hflush := renderCells_of_painted hall []
    rw [List.append_nil, h] at hflush
    obtain ⟨message, hfault, hflush⟩ := finish_error hflush.symm
    exact ⟨message, painted, hfault, .inr ⟨hall, hflush⟩⟩
  · rw [renderCells_of_painted hbefore, renderCells, hfails] at h
    cases h
    exact ⟨message, painted, rfl, .inl ⟨before, c, after, rfl, hbefore, hfails⟩⟩

theorem render_error {fault : Fault} (h : f.render d = (.error fault, d')) :
    ∃ message count, fault = .device message ∧ FailsAt f d message d' count := by
  rw [render_eq] at h
  obtain ⟨message, painted, hfault, hcase⟩ := renderCells_error h
  rcases hcase with ⟨before, c, after, hsplit, hbefore, hfails⟩ | ⟨hall, hflush⟩
  · rw [Cell.take_all_of_split hsplit] at hbefore
    exact ⟨message, c, hfault, .paint c hbefore hfails⟩
  · exact ⟨message, 2048, hfault, .flush hall hflush⟩

variable (recording : Display.Recording δ)

/-- The painted cells show the frame, and no other cell has changed. -/
theorem Painted.shown_eq {cells : List Cell} (h : Painted f cells d d') :
    recording.shown d' = cells.foldl (fun g c => g.put c (f.lit c)) (recording.shown d) := by
  induction h with
  | nil d => rfl
  | cons first rest ih =>
    rw [ih, recording.paint_ok _ _ _ _ _ first, Cell.ofColumnRow_column_row]
    rfl

theorem FailsAt.lit_shown {message : String} {count : Nat} (h : FailsAt f d message d' count)
    {c : Cell} (hc : c.val < count) : (recording.shown d').lit c = f.lit c := by
  cases h with
  | paint failing before fails =>
    rw [recording.paint_error _ _ _ _ _ _ fails, before.shown_eq]
    exact lit_foldl_put f _ _ c (.inl (Cell.mem_take_all hc))
  | @flush painted before fails =>
    have hkeeps := recording.flush_keeps painted
    rw [fails] at hkeeps
    rw [hkeeps, before.shown_eq]
    exact lit_foldl_put f _ _ c (.inl (List.mem_finRange c))

end Frame
end Chip8
