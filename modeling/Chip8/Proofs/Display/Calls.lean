import Chip8.Proofs.Display.Failing
import Mathlib.Data.List.FinRange

/-!
# The calls made to a display

A `Transcript` is a display that remembers which calls were made to it and otherwise does what the
display inside does. With it, what it takes to show a frame is a list: the pixels row by row and
then the flush, cut behind the first paint that fails. The frame is only read, so there is nothing
to say of it afterwards, and what a display does with its calls is left open.
-/
namespace Chip8

/-- Something that a display is asked to do. -/
inductive Display.Call where
  | paint (x : Fin 64) (y : Fin 32) (on : Bool)
  | flush
  deriving DecidableEq, Repr

/-- A display and the calls made to it so far, the failing ones too, the oldest first. -/
structure Transcript (δ : Type) where
  display : δ
  calls : List Display.Call
  deriving DecidableEq, Repr

namespace Transcript

variable {δ : Type} [Display δ]

def paint (t : Transcript δ) (x : Fin 64) (y : Fin 32) (on : Bool) :
    Except String Unit × Transcript δ :=
  let answer := Display.paint t.display x y on
  (answer.1, ⟨answer.2, t.calls ++ [.paint x y on]⟩)

def flush (t : Transcript δ) : Except String Unit × Transcript δ :=
  let answer := Display.flush t.display
  (answer.1, ⟨answer.2, t.calls ++ [.flush]⟩)

instance : Display (Transcript δ) := ⟨paint, flush⟩

theorem paint_of_eq {d d' : δ} {x : Fin 64} {y : Fin 32} {on : Bool} {answer : Except String Unit}
    (h : Display.paint d x y on = (answer, d')) (calls : List Display.Call) :
    Display.paint (⟨d, calls⟩ : Transcript δ) x y on =
      (answer, ⟨d', calls ++ [.paint x y on]⟩) := by
  show ((Display.paint d x y on).1,
    (⟨(Display.paint d x y on).2, calls ++ [.paint x y on]⟩ : Transcript δ)) = _
  rw [h]

end Transcript

namespace Cell

/-- The numbers below a product, row by row. -/
theorem range_mul_eq_flatMap (rows width : Nat) :
    List.range (rows * width) =
      (List.range rows).flatMap fun y => (List.range width).map fun x => x + y * width := by
  induction rows with
  | zero => simp
  | succ rows ih =>
    rw [Nat.succ_mul, List.range_add, ih, List.range_succ, List.flatMap_append]
    simp [Nat.add_comm]

theorem all_eq_rows :
    all = (List.finRange 32).flatMap fun y => (List.finRange 64).map fun x => ofColumnRow x y := by
  have hnumbers := calc
    all.map Fin.val = List.range 2048 := List.map_coe_finRange_eq_range
    _ = (List.range 32).flatMap fun y => (List.range 64).map fun x => x + y * 64 :=
      range_mul_eq_flatMap 32 64
    _ = ((List.finRange 32).flatMap fun y =>
          (List.finRange 64).map fun x => ofColumnRow x y).map Fin.val := by
      rw [← List.map_coe_finRange_eq_range (n := 32), ← List.map_coe_finRange_eq_range (n := 64),
        List.flatMap_map, List.map_flatMap]
      simp only [List.map_map]
      rfl
  exact List.map_injective_iff.mpr Fin.val_injective hnumbers

theorem all_eq_split (c : Cell) : all = all.take c ++ c :: all.drop (c + 1) := by
  have hlength : c.val < all.length := Nat.lt_of_lt_of_eq c.isLt List.length_finRange.symm
  have hthere : all[c.val] = c := List.getElem_finRange _
  calc all = all.take c ++ all.drop c := (List.take_append_drop _ _).symm
    _ = all.take c ++ c :: all.drop (c + 1) := by rw [List.drop_eq_getElem_cons hlength, hthere]

theorem lt_of_mem_take_all {c : Cell} {count : Nat} (h : c ∈ all.take count) : c.val < count := by
  obtain ⟨k, hk, hc⟩ := List.mem_take_iff_getElem.mp h
  have hval : c.val = k := by
    rw [← hc]
    exact congrArg Fin.val (List.getElem_finRange _)
  omega

end Cell

namespace Frame

/-- The calls that paint the given cells. -/
def paintCalls (f : Frame) (cells : List Cell) : List Display.Call :=
  cells.map fun c => .paint c.column c.row (f.lit c)

/-- One call for each pixel, row by row. -/
def pixelCalls (f : Frame) : List Display.Call :=
  (List.finRange 32).flatMap fun y =>
    (List.finRange 64).map fun x => .paint x y (f.pixel x y)

variable {δ : Type} [Display δ] {f : Frame} {d d' : δ} {cells : List Cell}

theorem paintCalls_all (f : Frame) : f.paintCalls Cell.all = f.pixelCalls := by
  rw [paintCalls, Cell.all_eq_rows, List.map_flatMap, pixelCalls]
  simp only [List.map_map, Function.comp_def, Cell.column_ofColumnRow, Cell.row_ofColumnRow,
    pixel_eq_lit]

theorem paintCalls_take_succ (f : Frame) (c : Cell) :
    f.paintCalls (Cell.all.take c) ++ [.paint c.column c.row (f.lit c)] =
      f.pixelCalls.take (c + 1) := by
  have hlength : c.val < Cell.all.length := Nat.lt_of_lt_of_eq c.isLt List.length_finRange.symm
  have hthere : Cell.all[c.val] = c := List.getElem_finRange _
  rw [← paintCalls_all, paintCalls, paintCalls, ← List.map_take,
    List.take_succ_eq_append_getElem hlength, List.map_append, hthere]
  rfl

theorem length_pixelCalls (f : Frame) : f.pixelCalls.length = 2048 := by
  rw [← paintCalls_all, paintCalls, List.length_map, Cell.all, List.length_finRange]

/-- Every pixel is painted once, and as it is. -/
theorem count_pixelCalls (f : Frame) (x : Fin 64) (y : Fin 32) (on : Bool) :
    f.pixelCalls.count (.paint x y on) = if on = f.pixel x y then 1 else 0 := by
  have hnodup : f.pixelCalls.Nodup := by
    rw [← paintCalls_all]
    refine (List.nodup_finRange 2048).map fun c e h => ?_
    obtain ⟨hcolumn, hrow, -⟩ := Display.Call.paint.inj h
    exact Cell.eq_of_column_row hcolumn hrow
  have hmem : Display.Call.paint x y on ∈ f.pixelCalls ↔ on = f.pixel x y := by
    simp [pixelCalls, eq_comm]
  rw [hnodup.count]
  simp only [hmem]

/-- The display fails at the paint of this cell, having painted all cells before it. -/
def FailsPainting (f : Frame) (d : δ) (c : Cell) (message : String) (d' : δ) : Prop :=
  ∃ painted, Painted f (Cell.all.take c) d painted ∧
    Display.paint painted c.column c.row (f.lit c) = (.error message, d')

theorem render_of_failsPainting {c : Cell} {message : String}
    (h : FailsPainting f d c message d') : f.render d = (.error (.device message), d') := by
  obtain ⟨painted, hbefore, hfails⟩ := h
  rw [render_eq, Cell.all_eq_split c, renderCells_of_painted hbefore, renderCells, hfails]

theorem render_of_painted (h : Painted f Cell.all d d') :
    f.render d = ((Display.flush d').1.mapError .device, (Display.flush d').2) := by
  rw [render_eq, ← List.append_nil Cell.all, renderCells_of_painted h, renderCells, finish]
  rcases Display.flush d' with ⟨message | ⟨⟩, flushed⟩ <;> rfl

theorem Painted.transcript (h : Painted f cells d d') (calls : List Display.Call) :
    Painted f cells (⟨d, calls⟩ : Transcript δ) ⟨d', calls ++ f.paintCalls cells⟩ := by
  induction h generalizing calls with
  | nil d =>
    rw [paintCalls, List.map_nil, List.append_nil]
    exact .nil _
  | @cons c cells d painted d' first rest ih =>
    have hrest := ih (calls ++ [.paint c.column c.row (f.lit c)])
    rw [List.append_assoc] at hrest
    exact .cons (Transcript.paint_of_eq first calls) hrest

theorem FailsPainting.transcript {c : Cell} {message : String}
    (h : FailsPainting f d c message d') :
    FailsPainting f (⟨d, []⟩ : Transcript δ) c message ⟨d', f.pixelCalls.take (c + 1)⟩ := by
  obtain ⟨painted, hbefore, hfails⟩ := h
  refine ⟨_, hbefore.transcript [], ?_⟩
  rw [Transcript.paint_of_eq hfails, List.nil_append, paintCalls_take_succ]

theorem lit_foldl_put_of_notMem (f g : Frame) {c : Cell} (h : c ∉ cells) :
    (cells.foldl (fun g d => g.put d (f.lit d)) g).lit c = g.lit c := by
  induction cells generalizing g with
  | nil => rfl
  | cons d cells ih =>
    have hne : d ≠ c := fun hd => h (hd ▸ List.mem_cons_self)
    rw [List.foldl_cons, ih _ fun hmem => h (List.mem_cons_of_mem d hmem), lit_put, if_neg hne]

theorem FailsPainting.shown {c : Cell} {message : String} (h : FailsPainting f d c message d')
    (recording : Display.Recording δ) (e : Cell) :
    (recording.shown d').lit e = if e < c then f.lit e else (recording.shown d).lit e := by
  obtain ⟨painted, hbefore, hfails⟩ := h
  rw [recording.paint_error _ _ _ _ _ _ hfails, hbefore.shown_eq]
  split
  · next hlt => exact lit_foldl_put f _ _ e (.inl (Cell.mem_take_all hlt))
  · next hge => exact lit_foldl_put_of_notMem f _ fun hmem => hge (Cell.lt_of_mem_take_all hmem)

/-- What it takes to show a frame on a display. -/
structure PaintsInOrder (f : Frame) (d : δ) : Prop where
  /-- Some paint is the first that fails, or none fails. -/
  one_of : (∃ c message d', FailsPainting f d c message d') ∨ ∃ painted, Painted f Cell.all d painted
  /-- A paint that fails is the last call, and its failure is the result. -/
  fails : ∀ c message d', FailsPainting f d c message d' →
    f.render d = (.error (.device message), d') ∧
      f.render (⟨d, []⟩ : Transcript δ) =
        (.error (.device message), ⟨d', f.pixelCalls.take (c + 1)⟩) ∧
      ∀ (recording : Display.Recording δ) (e : Cell), (recording.shown d').lit e =
        if e < c then f.lit e else (recording.shown d).lit e
  /-- Otherwise one flush follows the paints, and its result is the result. -/
  flushes : ∀ painted, Painted f Cell.all d painted →
    f.render d = ((Display.flush painted).1.mapError .device, (Display.flush painted).2) ∧
      f.render (⟨d, []⟩ : Transcript δ) =
        ((Display.flush painted).1.mapError .device,
          ⟨(Display.flush painted).2, f.pixelCalls ++ [.flush]⟩)

theorem paintsInOrder (f : Frame) (d : δ) : PaintsInOrder f d := by
  constructor
  case one_of =>
    rcases painted_or_fails f Cell.all d with hall | ⟨before, c, after, painted, message, d', hsplit,
      hbefore, hfails⟩
    · exact .inr hall
    · rw [Cell.take_all_of_split hsplit] at hbefore
      exact .inl ⟨c, message, d', ⟨painted, hbefore, hfails⟩⟩
  case fails =>
    intro c message d' hfails
    exact ⟨render_of_failsPainting hfails, render_of_failsPainting hfails.transcript, hfails.shown⟩
  case flushes =>
    intro painted hall
    refine ⟨render_of_painted hall, ?_⟩
    have htranscript := hall.transcript []
    rw [List.nil_append, paintCalls_all] at htranscript
    exact render_of_painted htranscript

/-- Showing a frame paints each pixel once, row by row, up to the first paint that fails; if none
does, one flush follows. -/
theorem render_paints_in_order (f : Frame) (d : δ) :
    PaintsInOrder f d ∧ f.pixelCalls.length = 2048 ∧
      ∀ x y on, f.pixelCalls.count (.paint x y on) = if on = f.pixel x y then 1 else 0 :=
  ⟨paintsInOrder f d, length_pixelCalls f, count_pixelCalls f⟩

/-- A recorder that fails at the second pixel has been shown the first. -/
theorem render_paints_in_order_second_pixel :
    let f := blank.put 0 true
    let d := Recorder.failingAt 2 0
    (f.render d).1 = .error (.device "display write failed") ∧ (f.render d).2.shown.lit 0 = true ∧
      (f.render (⟨d, []⟩ : Transcript Recorder)).2.calls.length = 2 := by
  intro f d
  have hbefore : Cell.all.take (1 : Cell) = [0] := by
    rw [Cell.all, List.finRange_succ]
    rfl
  have hfails : f.FailsPainting d 1 "display write failed" { d with
      shown := d.shown.put 0 true, writes := 2 } := by
    refine ⟨(d.paint 0 0 true).2, ?_, rfl⟩
    rw [hbefore]
    exact .cons rfl (.nil _)
  obtain ⟨horder, hlength, -⟩ := render_paints_in_order f d
  obtain ⟨hresult, hcalls, hshown⟩ := horder.fails 1 _ _ hfails
  rw [hresult, hcalls]
  refine ⟨rfl, ?_, ?_⟩
  · exact (hshown Recorder.recording 0).trans (by decide)
  · show (f.pixelCalls.take 2).length = 2
    rw [List.length_take, hlength]
    rfl

end Frame
end Chip8
