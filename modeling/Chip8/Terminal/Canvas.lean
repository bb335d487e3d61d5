import Chip8.Display

/-!
# Painting on a terminal

Pictures are made of four commands, each of which stands for the characters that a terminal is sent
for it; columns and rows count from 0 in a command and from 1 in what is sent. A pixel is two
characters wide, so that it comes out roughly square: two full blocks in green on black, or two
blanks. Positions have 16 bits; what exceeds them is cut off.
-/
namespace Chip8.Terminal

inductive Command where
  /-- Puts the cursor at a column and a row. -/
  | moveTo (column row : Nat)
  /-- Chooses the colour of what is printed next, by its number in the palette. -/
  | foreground (colour : Nat)
  /-- Chooses the colour behind what is printed next. -/
  | background (colour : Nat)
  | print (text : String)
  deriving DecidableEq, Repr

namespace Command

def text : Command → String
  | moveTo column row => "\x1b[" ++ toString (row + 1) ++ ";" ++ toString (column + 1) ++ "H"
  | foreground colour => "\x1b[38;5;" ++ toString colour ++ "m"
  | background colour => "\x1b[48;5;" ++ toString colour ++ "m"
  | print text => text

end Command

def green : Nat := 10

def black : Nat := 0

/-- The commands that paint the pixel at column `x` of row `y`. -/
def pixelCommands (x y : Nat) (on : Bool) : List Command :=
  [.moveTo (x * 2 % 65536) (y % 65536), .foreground green, .background black,
    .print (if on then "██" else "  ")]

/-- The characters that paint a pixel. -/
def pixelText (x y : Nat) (on : Bool) : String :=
  String.join ((pixelCommands x y on).map Command.text)

/-- A display that collects what a terminal is to be sent. It never fails. -/
structure Canvas where
  text : String
  deriving DecidableEq, Repr

namespace Canvas

def empty : Canvas := ⟨""⟩

/-- Adds the characters that paint a pixel. -/
def paint (canvas : Canvas) (x : Fin 64) (y : Fin 32) (on : Bool) :
    Except String Unit × Canvas :=
  (.ok (), ⟨canvas.text ++ pixelText x y on⟩)

instance : Display Canvas := ⟨paint, fun canvas => (.ok (), canvas)⟩

end Canvas
end Chip8.Terminal
