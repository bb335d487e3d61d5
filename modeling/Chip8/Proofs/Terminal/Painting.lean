import Chip8.Frame.Render
import Chip8.Terminal.Canvas
import Chip8.Terminal.Screen

/-!
# What a terminal shows of a frame

A terminal that takes in the characters of a pixel comes to show that pixel in two cells, whatever
it showed before and wherever its cursor was: `replay_pixelText`. The pixels of a frame lie apart,
so all of them are shown in the end, and from what is shown the frame can be told. Colours are not
covered: they change no character.
-/
namespace Chip8.Terminal

/-- The character that both cells of a pixel show. -/
def glyph (on : Bool) : Char := if on then '█' else ' '

theorem glyph_inj {on on' : Bool} (h : glyph on = glyph on') : on = on' := by
  revert h
  cases on <;> cases on' <;> decide

namespace Canvas

/-- The characters that paint these cells of a frame. -/
def cellsText (f : Frame) (cells : List Cell) : String :=
  String.join (cells.map fun c => pixelText c.column c.row (f.lit c))

theorem cellsText_cons (f : Frame) (c : Cell) (cells : List Cell) :
    cellsText f (c :: cells) = pixelText c.column c.row (f.lit c) ++ cellsText f cells := by
  rw [cellsText, List.map_cons, String.join_cons]
  rfl

theorem renderCells_eq (f : Frame) (cells : List Cell) (canvas : Canvas) :
    f.renderCells cells canvas = (.ok (), ⟨canvas.text ++ cellsText f cells⟩) := by
  induction cells generalizing canvas with
  | nil =>
    rw [cellsText, List.map_nil, String.join_nil, String.append_empty]
    rfl
  | cons c cells ih =>
    have hpaint : Display.paint canvas c.column c.row (f.lit c) =
        (.ok (), ⟨canvas.text ++ pixelText c.column c.row (f.lit c)⟩) := rfl
    rw [Frame.renderCells, hpaint]
    dsimp only
    rw [ih, cellsText_cons, String.append_assoc]

theorem render_eq (f : Frame) : f.render empty = (.ok (), ⟨cellsText f Cell.all⟩) := by
  rw [Frame.render_eq, renderCells_eq, empty, String.empty_append]

/-- What a frame sends to the terminal, in bytes. -/
def frameBytes (f : Frame) : ByteArray := (f.render empty).2.text.toUTF8

end Canvas

namespace Screen

open Canvas

variable {width height : Nat} {s : Screen width height}

theorem replay_append (s : Screen width height) (first second : String) :
    s.replay (first ++ second) = (s.replay first).replay second := by
  rw [replay, String.toList_append, List.foldl_append]
  rfl

theorem foldl_accept_digits (s : Screen width height) (finished : List Nat) (current : Nat)
    {digits : List Char} (h : ∀ c ∈ digits, c.isDigit = true) :
    digits.foldl accept { s with reading := .numbers finished current } =
      { s with reading := .numbers finished (Nat.ofDigitChars 10 digits current) } := by
  induction digits generalizing current with
  | nil => rfl
  | cons c digits ih =>
    have hc : c.isDigit = true := h c List.mem_cons_self
    have hfirst : accept { s with reading := .numbers finished current } c =
        { s with reading := .numbers finished (10 * current + (c.toNat - '0'.toNat)) } := by
      rw [accept, Nat.mul_comm]
      exact if_pos hc
    rw [List.foldl_cons, hfirst, ih _ fun d hd => h d (List.mem_cons_of_mem c hd),
      Nat.ofDigitChars_cons]

/-- A number in decimal is read back. -/
theorem replay_number (s : Screen width height) (finished : List Nat) (n : Nat) :
    replay { s with reading := .numbers finished 0 } (toString n) =
      { s with reading := .numbers finished n } := by
  have hdigits : ∀ c ∈ Nat.toDigits 10 n, c.isDigit = true := fun c hc =>
    Nat.isDigit_of_mem_toDigits (by decide) (by decide) hc
  rw [replay, Nat.toString_eq_ofList_toDigits, String.toList_ofList,
    foldl_accept_digits s finished 0 hdigits, Nat.ofDigitChars_ten_toDigits]

theorem replay_moveTo (h : s.reading = .outside) (column row : Nat) :
    s.replay (Command.moveTo column row).text = { s with column := column, row := row } := by
  have hbegin : s.replay "\x1b[" = { s with reading := .numbers [] 0 } := by
    cases s
    cases h
    rfl
  have hrow : replay { s with reading := .numbers [] (row + 1) } ";" =
      { s with reading := .numbers [row + 1] 0 } := rfl
  have hcolumn : replay { s with reading := .numbers [row + 1] (column + 1) } "H" =
      { s with column := column, row := row, reading := .outside } := rfl
  rw [Command.text, replay_append, replay_append, replay_append, replay_append, hbegin,
    replay_number, hrow, replay_number, hcolumn, ← h]

/-- A colour changes nothing that is shown, and does not move the cursor. -/
theorem replay_colour (h : s.reading = .outside) (colour : Nat) :
    s.replay (Command.foreground colour).text = s ∧
      s.replay (Command.background colour).text = s := by
  have hend (layer : Nat) : replay { s with reading := .numbers [layer, 5] colour } "m" = s := by
    cases s
    cases h
    rfl
  have hforeground : s.replay "\x1b[38;5;" = { s with reading := .numbers [38, 5] 0 } := by
    cases s
    cases h
    rfl
  have hbackground : s.replay "\x1b[48;5;" = { s with reading := .numbers [48, 5] 0 } := by
    cases s
    cases h
    rfl
  constructor
  · rw [Command.text, replay_append, replay_append, hforeground, replay_number, hend]
  · rw [Command.text, replay_append, replay_append, hbackground, replay_number, hend]

theorem replay_glyphs (h : s.reading = .outside) (on : Bool) :
    s.replay (Command.print (if on then "██" else "  ")).text =
      (s.print (glyph on)).print (glyph on) := by
  cases s
  cases h
  cases on <;> rfl

/-- The same terminal with a pixel painted over it and the cursor behind that. -/
def withPixel (s : Screen width height) (c : Cell) (on : Bool) : Screen width height :=
  { s with
    shown := fun column row =>
      if column.val / 2 = c.column.val ∧ row.val = c.row.val then glyph on else s.shown column row,
    column := c.column * 2 + 2,
    row := c.row }

theorem print_print (s : Screen width height) (c : Cell) (on : Bool) :
    (print { s with column := c.column * 2, row := c.row } (glyph on)).print (glyph on) =
      s.withPixel c on := by
  unfold print withPixel
  congr 1
  funext column row
  dsimp only
  by_cases hrow : row.val = c.row.val
  · simp only [hrow, and_true]
    split
    · next h => rw [if_pos (by omega)]
    · next h =>
      split
      · next h' => rw [if_pos (by omega)]
      · next h' => rw [if_neg (by omega)]
  · simp only [hrow, and_false, if_false]

/-- The characters of a pixel paint it, whatever was shown before and wherever the cursor was. -/
theorem replay_pixelText (h : s.reading = .outside) (c : Cell) (on : Bool) :
    s.replay (pixelText c.column c.row on) = s.withPixel c on := by
  have hcolumn : c.column.val * 2 % 65536 = c.column.val * 2 := Nat.mod_eq_of_lt (by omega)
  have hrow : c.row.val % 65536 = c.row.val := Nat.mod_eq_of_lt (by omega)
  have hplaced : reading { s with column := c.column.val * 2, row := c.row.val } = .outside := h
  simp only [pixelText, pixelCommands, List.map_cons, List.map_nil, String.join_cons,
    String.join_nil, hcolumn, hrow]
  rw [replay_append, replay_append, replay_append, replay_append, replay_moveTo h,
    (replay_colour hplaced green).1, (replay_colour hplaced black).2, replay_glyphs hplaced,
    print_print]
  rfl

theorem replay_cellsText (h : s.reading = .outside) (f : Frame) (cells : List Cell) :
    s.replay (cellsText f cells) = cells.foldl (fun t c => t.withPixel c (f.lit c)) s := by
  induction cells generalizing s with
  | nil => rfl
  | cons c cells ih =>
    rw [cellsText_cons, replay_append, replay_pixelText h]
    exact ih h

/-- A cell that has been painted goes on showing its pixel: the others lie elsewhere. -/
theorem shown_foldl_withPixel (f : Frame) {cells : List Cell} {c : Cell} {column : Fin width}
    {row : Fin height} (hcolumn : column.val / 2 = c.column.val) (hrow : row.val = c.row.val)
    (h : c ∈ cells ∨ s.shown column row = glyph (f.lit c)) :
    (cells.foldl (fun t c => t.withPixel c (f.lit c)) s).shown column row = glyph (f.lit c) := by
  induction cells generalizing s with
  | nil => exact h.resolve_left List.not_mem_nil
  | cons d cells ih =>
    rw [List.foldl_cons]
    apply ih
    by_cases hd : c = d
    · right
      subst hd
      exact if_pos ⟨hcolumn, hrow⟩
    · refine h.imp (fun hin => (List.mem_cons.mp hin).resolve_left hd) fun hshown => ?_
      have helsewhere : ¬ (column.val / 2 = d.column.val ∧ row.val = d.row.val) := by
        rintro ⟨hcolumn', hrow'⟩
        exact hd (Cell.eq_of_column_row (Fin.ext (hcolumn.symm.trans hcolumn'))
          (Fin.ext (hrow.symm.trans hrow')))
      exact (if_neg helsewhere).trans hshown

/-- Beyond the pixels of a frame nothing changes. -/
theorem shown_foldl_withPixel_beyond (f : Frame) (cells : List Cell) {column : Fin width}
    {row : Fin height} (h : 128 ≤ column.val ∨ 32 ≤ row.val) :
    (cells.foldl (fun t c => t.withPixel c (f.lit c)) s).shown column row = s.shown column row := by
  induction cells generalizing s with
  | nil => rfl
  | cons c cells ih =>
    have hbeyond : ¬ (column.val / 2 = c.column.val ∧ row.val = c.row.val) := by omega
    rw [List.foldl_cons, ih]
    exact if_neg hbeyond

theorem receive_frameBytes (h : s.reading = .outside) (f : Frame) :
    s.receive (frameBytes f) = Cell.all.foldl (fun t c => t.withPixel c (f.lit c)) s := by
  rw [frameBytes, render_eq, receive_toUTF8, replay_cellsText h]

/-- Both cells of a pixel come to show it. -/
theorem char?_receive_frameBytes (h : s.reading = .outside) (f : Frame) (x : Fin 64) (y : Fin 32)
    {column : Nat} (hcolumn : column / 2 = x.val) (hlt : column < width) (hrow : y.val < height) :
    (s.receive (frameBytes f)).char? column y = some (glyph (f.pixel x y)) := by
  rw [char?, dif_pos ⟨hlt, hrow⟩, receive_frameBytes h, Frame.pixel_eq_lit]
  refine congrArg some (shown_foldl_withPixel f ?_ ?_ (.inl (List.mem_finRange _)))
  · rw [Cell.column_ofColumnRow]
    exact hcolumn
  · rw [Cell.row_ofColumnRow]

theorem char?_receive_beyond (h : s.reading = .outside) (f : Frame) {column row : Nat}
    (hbeyond : 128 ≤ column ∨ 32 ≤ row) :
    (s.receive (frameBytes f)).char? column row = s.char? column row := by
  unfold char?
  split
  · rw [receive_frameBytes h, shown_foldl_withPixel_beyond f _ hbeyond]
  · exact rfl

/-- Different frames are told apart by what a terminal shows of them. -/
theorem frameBytes_inj {f g : Frame} (h : frameBytes f = frameBytes g) : f = g := by
  apply Frame.ext_lit
  intro c
  let blank : Screen 128 32 := ⟨fun _ _ => ' ', 0, 0, .outside⟩
  have hcolumn : 2 * c.column.val / 2 = c.column.val := Nat.mul_div_cancel_left _ (by decide)
  have hshows (g : Frame) : (blank.receive (frameBytes g)).char? (2 * c.column) c.row =
      some (glyph (g.lit c)) := by
    rw [char?_receive_frameBytes rfl g c.column c.row hcolumn (by omega) c.row.isLt,
      Frame.pixel_eq_lit, Cell.ofColumnRow_column_row]
  have hsame := hshows f
  rw [h, hshows g] at hsame
  exact (glyph_inj (Option.some.inj hsame)).symm

end Screen

open Canvas in
/-- A frame is sent to the terminal without fail, as the characters of its pixels one after the
other. A terminal of at least 128 columns and 32 rows that takes in their bytes comes to show every
pixel in two cells, as full blocks if it is lit and as blanks otherwise. Its other cells stay as they
were, whatever it has shown before and wherever its cursor has been. Frames with the same bytes are
the same. -/
theorem terminal_shows_frame {width height : Nat} (hwidth : 128 ≤ width) (hheight : 32 ≤ height)
    (f : Frame) (shown : Fin width → Fin height → Char) (column row : Nat) :
    let before : Screen width height := ⟨shown, column, row, .outside⟩
    let after := before.receive (frameBytes f)
    f.render Canvas.empty = (.ok (), ⟨cellsText f Cell.all⟩) ∧
      (∀ (x : Fin 64) (y : Fin 32),
        after.char? (2 * x) y = some (if f.pixel x y then '█' else ' ') ∧
          after.char? (2 * x + 1) y = some (if f.pixel x y then '█' else ' ')) ∧
      (∀ column row, 128 ≤ column ∨ 32 ≤ row → after.char? column row = before.char? column row) ∧
      ∀ g, frameBytes g = frameBytes f → g = f := by
  intro before after
  have hbefore : before.reading = .outside := rfl
  refine ⟨Canvas.render_eq f, fun x y => ⟨?_, ?_⟩,
    fun column row => Screen.char?_receive_beyond hbefore f, fun g => Screen.frameBytes_inj⟩
  · exact Screen.char?_receive_frameBytes hbefore f x y (by omega) (by omega) (by omega)
  · exact Screen.char?_receive_frameBytes hbefore f x y (by omega) (by omega) (by omega)

/-- One lit pixel on a terminal full of another character, with the cursor outside of it. -/
theorem terminal_shows_frame_one_pixel :
    let f := Frame.blank.toggle (Cell.ofColumnRow 63 31)
    let before : Screen 130 40 := ⟨fun _ _ => 'x', 200, 7, .outside⟩
    let after := before.receive (Canvas.frameBytes f)
    128 ≤ 130 ∧ 32 ≤ 40 ∧ after.char? 126 31 = some '█' ∧ after.char? 127 31 = some '█' ∧
      after.char? 125 31 = some ' ' ∧ after.char? 128 31 = some 'x' := by
  intro f before after
  have hlit : f.pixel (63 : Fin 64) (31 : Fin 32) = true := by decide +kernel
  have hdark : ¬ f.pixel (62 : Fin 64) (31 : Fin 32) = true := by decide +kernel
  obtain ⟨-, hshown, hbeyond, -⟩ := @terminal_shows_frame 130 40 (by decide) (by decide) f
    (fun _ _ => 'x') 200 7
  obtain ⟨hleft, hright⟩ := hshown 63 31
  have hbefore := (hshown 62 31).2
  rw [if_pos hlit] at hleft hright
  rw [if_neg hdark] at hbefore
  exact ⟨by decide, by decide, hleft, hright, hbefore, hbeyond 128 31 (by decide)⟩

end Chip8.Terminal
