/-!
# Keys of the keyboard

What a terminal reports when somebody uses the keyboard: a key, the modifiers held with it, and
whether it was pressed, repeated or let go. Only characters and the escape key mean anything here.
-/
namespace Chip8.Keyboard

/-- A key, by what it types or is called. -/
inductive Key where
  | char (c : Char)
  | escape
  | other (name : String)
  deriving DecidableEq, Repr

inductive Motion where
  | pressed
  | repeated
  | released
  deriving DecidableEq, Repr

structure Modifiers where
  shift : Bool
  control : Bool
  alt : Bool
  superKey : Bool
  hyperKey : Bool
  metaKey : Bool
  deriving DecidableEq, Repr

structure Stroke where
  key : Key
  modifiers : Modifiers
  motion : Motion
  deriving DecidableEq, Repr

/-- What one attempt to read from the terminal gives. -/
inductive Reading where
  | stroke (stroke : Stroke)
  /-- Something that is no key: the mouse, a change of size or focus, a paste. -/
  | other
  | failed (message : String)
  deriving DecidableEq, Repr

end Chip8.Keyboard
