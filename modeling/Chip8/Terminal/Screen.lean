import Chip8.Terminal.Canvas

/-!
# What a terminal shows

A terminal as far as the commands of this library go: a grid of characters, a cursor, and the part
of a control sequence read so far. A printed character fills the cursor's cell and moves it right;
colours change no character. The cursor may leave the grid, and fills no cell there.
-/
namespace Chip8.Terminal

/-- How far a control sequence has been read. -/
inductive Sequence where
  | outside
  /-- After the escape character. -/
  | escaped
  /-- After the bracket, with the finished numbers and the one being read. -/
  | numbers (finished : List Nat) (current : Nat)
  deriving DecidableEq, Repr

/-- A terminal with so many columns and rows. -/
structure Screen (width height : Nat) where
  /-- The character in each column and row, counted from 0. -/
  shown : Fin width → Fin height → Char
  column : Nat
  row : Nat
  reading : Sequence

namespace Screen

variable {width height : Nat}

/-- The character in a column of a row, if the terminal has that cell. -/
def char? (s : Screen width height) (column row : Nat) : Option Char :=
  if h : column < width ∧ row < height then some (s.shown ⟨column, h.1⟩ ⟨row, h.2⟩) else none

/-- Fills the cursor's cell and moves right. -/
def print (s : Screen width height) (c : Char) : Screen width height :=
  { s with
    shown := fun column row =>
      if column.val = s.column ∧ row.val = s.row then c else s.shown column row,
    column := s.column + 1 }

/-- Carries out a control sequence with the given numbers and last character. -/
def control (s : Screen width height) : List Nat → Char → Screen width height
  | [row, column], 'H' => { s with column := column - 1, row := row - 1 }
  | _, _ => s

def accept (s : Screen width height) (c : Char) : Screen width height :=
  match s.reading with
  | .outside => if c = '\x1b' then { s with reading := .escaped } else s.print c
  | .escaped => { s with reading := if c = '[' then .numbers [] 0 else .outside }
  | .numbers finished current =>
    if c.isDigit then { s with reading := .numbers finished (current * 10 + (c.toNat - '0'.toNat)) }
    else if c = ';' then { s with reading := .numbers (finished ++ [current]) 0 }
    else { s.control (finished ++ [current]) c with reading := .outside }

/-- Takes in a text, character by character. -/
def replay (s : Screen width height) (text : String) : Screen width height :=
  text.toList.foldl accept s

/-- Takes in bytes. Nothing comes of bytes that are no text in UTF-8. -/
def receive (s : Screen width height) (bytes : ByteArray) : Screen width height :=
  match String.fromUTF8? bytes with
  | some text => s.replay text
  | none => s

theorem receive_toUTF8 (s : Screen width height) (text : String) :
    s.receive text.toUTF8 = s.replay text := by
  have hdecode : String.fromUTF8? text.toUTF8 = some text := dif_pos text.isValidUTF8
  rw [receive, hdecode]

end Screen
end Chip8.Terminal
