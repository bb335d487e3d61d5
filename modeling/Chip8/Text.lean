/-!
# Numbers in words

Hexadecimal numbers have upper-case digits and are padded on the left with zeros to a least width;
one that needs more digits is written out in full. A duration in nanoseconds is shown in the largest
of s, ms, µs and ns that is not above it, as an exact decimal: the fraction has no trailing zeros,
and is left out when it is zero.
-/
namespace Chip8.Text

/-- The upper-case hexadecimal digits of `n`, at least `width` of them. -/
def hex (width n : Nat) : String :=
  String.ofList (((Nat.toDigits 16 n).map Char.toUpper).leftpad width '0')

/-- An address as messages show it: `0x` and at least three digits. -/
def address (n : Nat) : String := "0x" ++ hex 3 n

/-- A key code as messages show it: `0x` and at least two digits. -/
def keyCode (n : Nat) : String := "0x" ++ hex 2 n

def dropTrailingZeros (digits : List Char) : List Char :=
  (digits.reverse.dropWhile (· == '0')).reverse

/-- The part of `n / 10 ^ places` behind the point, with the point, or nothing if it is zero. -/
def fraction (places n : Nat) : String :=
  match dropTrailingZeros ((Nat.toDigits 10 (n % Nat.pow 10 places)).leftpad places '0') with
  | [] => ""
  | digits => "." ++ String.ofList digits

/-- The exact decimal `n / 10 ^ places`. -/
def decimal (places n : Nat) : String := toString (n / Nat.pow 10 places) ++ fraction places n

def duration (nanos : Nat) : String :=
  if 1000000000 ≤ nanos then decimal 9 nanos ++ "s"
  else if 1000000 ≤ nanos then decimal 6 nanos ++ "ms"
  else if 1000 ≤ nanos then decimal 3 nanos ++ "µs"
  else decimal 0 nanos ++ "ns"

end Chip8.Text
