import Chip8.Keyboard.Key
import Chip8.Mailbox

/-!
# The keypad on the keyboard

The left four columns of letters and digits stand for the keypad, whatever the case of the letters:

```text
1 2 3 4      1 2 3 C
Q W E R  ->  4 5 6 D
A S D F  ->  7 8 9 E
Z X C V      A 0 B F
```

Escape and Control-C stop the program; with Control held, nothing else means anything.
-/
namespace Chip8.Keyboard

/-- The key of the keypad that a character stands for; letters are given in lower case. -/
def keypadCode : Char → Option UInt8
  | '1' => some 0x1
  | '2' => some 0x2
  | '3' => some 0x3
  | '4' => some 0xC
  | 'q' => some 0x4
  | 'w' => some 0x5
  | 'e' => some 0x6
  | 'r' => some 0xD
  | 'a' => some 0x7
  | 's' => some 0x8
  | 'd' => some 0x9
  | 'f' => some 0xE
  | 'z' => some 0xA
  | 'x' => some 0x0
  | 'c' => some 0xB
  | 'v' => some 0xF
  | _ => none

/-- What a key means, pressed or repeated. -/
def Stroke.signal (stroke : Stroke) : Option Signal :=
  if stroke.modifiers.control then
    match stroke.key with
    | .char 'c' | .char 'C' => some .quit
    | _ => none
  else
    match stroke.key with
    | .escape => some .quit
    | .char c => (keypadCode c.toLower).map .key
    | .other _ => none

end Chip8.Keyboard
