import Chip8.Display
import Chip8.Instruction.Encoding
import Chip8.Main
import Chip8.Terminal.Screen
import Chip8.Time.Rehearsal
import Chip8.Proofs.Display.Failing
import Chip8.Proofs.Display.Reading
import Chip8.Proofs.Instruction.Decoding
import Chip8.Proofs.Instruction.Pattern
import Chip8.Proofs.Machine.Faults
import Chip8.Proofs.Machine.Nesting
import Chip8.Proofs.Machine.StrictAgreement
import Chip8.Proofs.RunLoop.Event
import Chip8.Proofs.RunLoop.Screen
import Chip8.Proofs.RunLoop.Operations
import Chip8.Proofs.RunLoop.Delivery
import Chip8.Proofs.RunLoop.Schedule
import Chip8.Proofs.Machine.Keys
import Chip8.Proofs.RunLoop.Presses
import Chip8.Proofs.RunLoop.Unkeyed
import Chip8.Proofs.RunLoop.Course
import Chip8.Proofs.RunLoop.Undisturbed
import Chip8.Proofs.Machine.Footprint
import Chip8.Proofs.Machine.Log
import Chip8.Proofs.Machine.Redraws
import Chip8.Proofs.Keypad.Held
import Chip8.Proofs.RunLoop.Notices
import Chip8.Proofs.RunLoop.HeldKeys
import Chip8.Proofs.RunLoop.Failures
import Chip8.Proofs.RunLoop.Runs
import Chip8.Proofs.Keyboard.Relayed
import Chip8.Proofs.RunLoop.Typing
import Chip8.Proofs.RunLoop.Progress
import Chip8.Proofs.Machine.Locality
import Chip8.Proofs.Instruction.RoundTrip
import Chip8.Proofs.Machine.Programs
import Chip8.Proofs.Machine.Successes
import Chip8.Proofs.Machine.Requests
import Chip8.Proofs.Machine.Timers
import Chip8.Proofs.Frame.Drawing
import Chip8.Proofs.Terminal.Painting
import Chip8.Proofs.RunLoop.Deserted
import Chip8.Proofs.RunLoop.Quitting
import Chip8.Proofs.Time.Strikes
import Chip8.Proofs.Frame.Redrawing
import Chip8.Proofs.Frame.Counting
import Chip8.Proofs.Machine.Saving
import Chip8.Proofs.Keyboard.Block
import Chip8.Proofs.Keyboard.Stopping
import Chip8.Proofs.Display.Calls
import Chip8.Proofs.Machine.Flags
import Chip8.Proofs.Machine.Loading
import Chip8.Proofs.Frame.Torus
import Chip8.Proofs.Frame.ReadingBack
import Chip8.Proofs.Machine.Erasing
import Chip8.Proofs.Machine.Awaiting
import Chip8.Proofs.CommandLine.Order
import Chip8.Proofs.Time.Rate
