/-!
# Arithmetic with a flag

The five operations that set VF. Each gives the resulting byte, which wraps at 256, and the flag.
The flag of a difference says that the minuend was larger: equal operands clear it, though nothing
is borrowed.
-/
namespace Chip8.Arithmetic

def add (a b : UInt8) : UInt8 × Bool := (a + b, decide (256 ≤ a.toNat + b.toNat))

def subtract (a b : UInt8) : UInt8 × Bool := (a - b, decide (b.toNat < a.toNat))

/-- Half of `a`, and whether it was odd. -/
def halve (a : UInt8) : UInt8 × Bool := (UInt8.ofNat (a.toNat / 2), decide (a.toNat % 2 = 1))

def double (a : UInt8) : UInt8 × Bool := (UInt8.ofNat (a.toNat * 2), decide (128 ≤ a.toNat))

/-- The three decimal digits of a byte, hundreds first. -/
def decimalDigits (a : UInt8) : List UInt8 :=
  [UInt8.ofNat (a.toNat / 100), UInt8.ofNat (a.toNat / 10 % 10), UInt8.ofNat (a.toNat % 10)]

/-- The value that VF gets from a flag. -/
def flagByte (flag : Bool) : UInt8 := if flag then 1 else 0

end Chip8.Arithmetic
