/-!
# Fixed sizes and rates

The numbers that every part of the console agrees on. Types and bounds elsewhere write the sizes as
literals, so that arithmetic sees them; the names here are for those who ask for a size.
-/
namespace Chip8

abbrev memorySize : Nat := 4096

/-- Where programs are loaded and where execution begins. -/
abbrev programStart : Nat := 0x200

/-- The longest program that fits between `programStart` and the end of memory. -/
abbrev programCapacity : Nat := 3584

abbrev registerCount : Nat := 16

/-- Slots of the call stack. A call moves up before it writes, so slot 0 stays unused. -/
abbrev stackSlots : Nat := 16

abbrev keyCount : Nat := 16

abbrev screenWidth : Nat := 64

abbrev screenHeight : Nat := 32

abbrev screenSize : Nat := 2048

/-- Rows of a sprite that are drawn; later ones are left out. -/
abbrev spriteRows : Nat := 15

/-- Bytes of one character of the built-in font. -/
abbrev glyphSize : Nat := 5

/-- Instructions a second, unless the player asks for another rate. -/
abbrev defaultClockHz : Nat := 120

/-- Releases of the whole keypad a second, unless the player asks for another rate. -/
abbrev defaultResetHz : Nat := 6

/-- Signals from the keyboard that may wait for the run loop. -/
abbrev inputCapacity : Nat := 10

abbrev redrawCapacity : Nat := 5

abbrev nanosPerSecond : Nat := 1000000000

/-- The last nanosecond that has a name. The seconds of a time have 64 bits. -/
abbrev lastInstant : Nat := 18446744073709551615999999999

theorem programCapacity_eq : programCapacity = memorySize - programStart := rfl

theorem screenSize_eq : screenSize = screenWidth * screenHeight := rfl

theorem lastInstant_eq : lastInstant = UInt64.size * nanosPerSecond - 1 := rfl

end Chip8
