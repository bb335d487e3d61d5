import Chip8.Machine.Load

/-!
# Programs in files

What can be found where a program is looked for. A directory can be opened but not read; its
failure comes with the first portion.
-/
namespace Chip8

inductive RomFile where
  | missing
  | directory
  /-- Something that cannot be opened for another reason. -/
  | unreadable (message : String)
  | regular (contents : List UInt8)
  deriving DecidableEq, Repr

namespace RomFile

/-- The reader that opening the file gives. -/
def reader : RomFile → Except String (List Portion)
  | missing => .error "No such file or directory (os error 2)"
  | directory => .ok [.failed "Is a directory (os error 21)"]
  | unreadable message => .error message
  | regular contents => .ok [.bytes contents]

/-- Loads the file into a machine that has just been switched on. -/
def boot (file : RomFile) : Outcome Machine Unit :=
  match file.reader with
  | .error message => .failed (.device message) Machine.initial
  | .ok portions => Machine.initial.installFrom portions

end RomFile
end Chip8
