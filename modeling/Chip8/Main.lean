import Chip8.CommandLine.Parse
import Chip8.Keyboard.Relay
import Chip8.Rom
import Chip8.RunLoop.Run
import Chip8.Terminal.Canvas

/-!
# The program

Reads the command line, loads the program and runs it in the terminal until the player quits or the
program fails. Everything is decided elsewhere: this module reads files, keys and the time, hands
them over, and writes out what comes back. A round of the run loop works on a logical clock that is
set to the time before each round; the difference is then slept through.
-/
namespace Chip8.Program

/-- What the keyboard has sent and nobody has taken yet, and what was noted meanwhile. -/
structure Inbox where
  signals : List Signal
  log : List Notice
  ended : Bool

def usage : String :=
  "Runs a Chip-8 program in the terminal.\n\n"
    ++ "Options:\n"
    ++ "  --rom FILE        program to run\n"
    ++ "  --clock-hz N      instructions a second (120)\n"
    ++ "  --reset-hz N      releases of the keypad a second (6)\n"
    ++ "  --log-file FILE   where notices go (chip8.log)\n"
    ++ "  -h, --help        show this text\n"
    ++ "  -V, --version     show the version\n\n"
    ++ "Keys 1234/QWER/ASDF/ZXCV are the keypad; Esc or Ctrl-C quits.\n"

def refusalText : CommandLine.Refusal → String
  | .helpWanted => usage
  | .versionWanted => "chip8 0.1.0\n"
  | .unknownArgument => "unexpected argument\n"
  | .tooManyValues => "unexpected value\n"
  | .missingValue => "an option needs a value\n"
  | .repeatedOption => "an option is given twice\n"
  | .badRate => "a rate is a number from 1 to 4294967295\n"
  | .romRequired => "--rom is required\n"

/-- Notices that are written to the log file. -/
def isKept (notice : Notice) : Bool :=
  match notice.level with
  | .trace | .debug => false
  | .info | .warn | .error => true

def writeLog (file : IO.FS.Handle) (log : List Notice) : IO Unit := do
  for notice in log.filter isKept do
    file.putStrLn notice.line
  file.flush

def openRom (path : String) : IO RomFile := do
  try
    return .regular (← IO.FS.readBinFile path).toList
  catch failure =>
    match failure with
    | .noFileOrDirectory .. => return .missing
    | .inappropriateType .. => return .directory
    | _ => return .unreadable (toString failure)

/-- The reading that one byte from the terminal is. -/
def readingOfByte (byte : UInt8) : Keyboard.Reading :=
  let plain : Keyboard.Modifiers := ⟨false, false, false, false, false, false⟩
  if byte = 0x1B then .stroke ⟨.escape, plain, .pressed⟩
  else if byte = 0x03 then .stroke ⟨.char 'c', { plain with control := true }, .pressed⟩
  else .stroke ⟨.char (Char.ofNat byte.toNat), plain, .pressed⟩

/-- Moves what the keyboard sends into the inbox, until it ends or asks to quit. -/
partial def listen (input : IO.FS.Stream) (inbox : IO.Ref Inbox) : IO Unit := do
  let bytes ← input.read 1
  if bytes.isEmpty then
    inbox.modify fun box => { box with ended := true }
  else
    let forwarded := Keyboard.relay true (bytes.toList.map readingOfByte)
    inbox.modify fun box =>
      { box with signals := box.signals ++ forwarded.sent, log := box.log ++ forwarded.notices }
    if forwarded.sent.contains .quit then return ()
    listen input inbox

abbrev Loop := RunLoop Terminal.Canvas LogicalClock

/-- Sleeps for some nanoseconds, but not longer than a key may go unnoticed. -/
def pause (nanos : Nat) : IO Unit := IO.sleep (min (nanos / 1000000) 5).toUInt32

/-- Plays round after round; the answer is the fault that ended the run, if one did. -/
partial def play (supply : Supply) (file : IO.FS.Handle) (inbox : IO.Ref Inbox)
    (startTime : Nat) (s : Loop) : IO (Option Fault) := do
  let now := (← IO.monoNanosNow) - startTime
  let box ← inbox.modifyGet fun box => (box, { box with signals := [], log := [] })
  let (filled, refused) := s.inbound.offerAll box.signals
  inbox.modify fun later => { later with signals := refused ++ later.signals }
  let inbound := if box.ended && refused.isEmpty then filled.hangUp else filled
  let turn := RunLoop.round supply
    { s with clock := ⟨now⟩, inbound := inbound, display := Terminal.Canvas.empty }
  writeLog file (box.log ++ turn.log)
  let output ← IO.getStdout
  output.putStr turn.state.display.text
  output.flush
  match turn.result with
  | .error fault =>
    writeLog file [.halted turn.state.machine.pc fault]
    return some fault
  | .ok .shutDown =>
    writeLog file [.quitting]
    return none
  | .ok .proceed =>
    pause (turn.state.clock.now - now)
    play supply file inbox startTime turn.state

/-- Runs a loaded machine on the alternate screen and puts the terminal back afterwards. -/
def present (settings : CommandLine.Settings) (file : IO.FS.Handle) (machine : Machine) :
    IO (Option Fault) := do
  let supply : Supply := ⟨Supply.cycle (← IO.getRandomBytes 4096).toList, Supply.heldKey⟩
  let inbox ← IO.mkRef (⟨[], [], false⟩ : Inbox)
  let _ ← IO.asTask (listen (← IO.getStdin) inbox) Task.Priority.dedicated
  let s : Loop := RunLoop.start machine Terminal.Canvas.empty
    (Mailbox.new (some inputCapacity) false) ⟨0⟩ settings.rates
  writeLog file [.running s.stepping.period s.releasing.period]
  IO.print "\x1b[?1049h\x1b[?25l\x1b[2J"
  let ending ← play supply file inbox (← IO.monoNanosNow) s
  IO.print "\x1b[0m\x1b[?25h\x1b[?1049l"
  return ending

/-- Loads the program and runs it; the answer is the fault that ended this, if one did. -/
def runSettings (settings : CommandLine.Settings) (file : IO.FS.Handle) : IO (Option Fault) := do
  let rom ← openRom settings.rom
  let booted := rom.boot
  writeLog file booted.log
  match booted.result with
  | .error fault => return some fault
  | .ok () =>
    match rom with
    | .regular contents => writeLog file [.romLoaded settings.rom contents.length]
    | _ => pure ()
    present settings file booted.state

end Chip8.Program

open Chip8 Chip8.Program in
def main (arguments : List String) : IO UInt32 := do
  match CommandLine.parse arguments with
  | .error refusal =>
    match refusal with
    | .helpWanted | .versionWanted =>
      IO.print (refusalText refusal)
      return 0
    | _ =>
      IO.eprint (refusalText refusal)
      return 2
  | .ok settings =>
    try
      let file ← IO.FS.Handle.mk settings.logFile .append
      match ← runSettings settings file with
      | none => return 0
      | some fault =>
        IO.eprintln fault.message
        return 1
    catch failure =>
      IO.eprintln (toString failure)
      return 1
