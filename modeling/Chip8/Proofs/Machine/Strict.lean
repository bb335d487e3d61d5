import Chip8.Proofs.Machine.Operation

/-!
# A machine that watches its limits

The console once more, on plain numbers in plain arrays: the top of the call stack is a byte, a cell
of the frame is a byte, registers and slots are numbered from 0. Every access looks whether the
array is long enough, every sum, difference and product whether the result fits, and a slice is only
overwritten by as many bytes as it has. Where that is not so there is no machine any more: the
result is `none`, which is no fault and is not recovered from. That this never happens is not said
here.
-/
namespace Chip8

structure Strict where
  memory : Memory
  registers : Registers
  index : Word
  pc : Word
  /-- The slot of the newest live return address; 0 outside of any call. -/
  top : UInt8
  slots : Vector Word 16
  delay : UInt8
  sound : UInt8
  /-- One byte for each cell of the frame, row by row. -/
  pixels : Vector UInt8 2048
  keypad : Keypad
  pendingRedraws : Nat
  bytesAsked : Nat
  keysAsked : Nat
  deriving DecidableEq, Repr

namespace Strict

def sum? (a b : Word) : Option Word :=
  if a.toNat + b.toNat < 65536 then some (a + b) else none

def product? (a b : Word) : Option Word :=
  if a.toNat * b.toNat < 65536 then some (a * b) else none

def difference? (a b : UInt8) : Option UInt8 := if b.toNat ≤ a.toNat then some (a - b) else none

section Arrays

variable {α : Type} {n : Nat}

/-- The array with a new element at `k`, if there is such a place. -/
def put? (v : Vector α n) (k : Nat) (a : α) : Option (Vector α n) :=
  if h : k < n then some (v.set k a) else none

/-- The `len` elements from `start` on, if they all exist. -/
def slice? (v : Vector α n) (start len : Nat) : Option (List α) :=
  if start + len ≤ n then some ((v.toList.drop start).take len) else none

/-- The array with new elements at the `len` places from `start` on, if those all exist and as many
elements are given. -/
def fill? (v : Vector α n) (start len : Nat) (given : List α) : Option (Vector α n) :=
  if start + len ≤ n ∧ given.length = len then
    some (Vector.ofFn fun k => if start ≤ k then (given[k.val - start]?).getD v[k] else v[k])
  else none

end Arrays

/-- What an operation that can fail comes to. -/
abbrev Attempt := Option (Except Fault Unit × Strict)

/-- Success, if there is a machine. -/
def succeed (s : Option Strict) : Attempt := s.map fun s => (.ok (), s)

def fail (s : Strict) (fault : Fault) : Attempt := some (.error fault, s)

def get (s : Strict) (x : Nat) : Option UInt8 := s.registers[x]?

def set (s : Strict) (x : Nat) (byte : UInt8) : Option Strict := do
  return { s with registers := ← put? s.registers x byte }

def setFlagged (s : Strict) (x : Nat) (outcome : UInt8 × Bool) : Option Strict := do
  (← s.set 15 (Arithmetic.flagByte outcome.2)).set x outcome.1

def next (s : Strict) (distance : Word) : Option Strict := do
  return { s with pc := ← sum? s.pc distance }

def skipIf (s : Strict) (condition : Bool) : Option Strict := s.next (if condition then 4 else 2)

def requestRedraw (s : Strict) : Strict :=
  if s.pendingRedraws < 5 then { s with pendingRedraws := s.pendingRedraws + 1 } else s

def ret (s : Strict) : Attempt :=
  if s.top = 0 then s.fail (.stackUnderflow s.pc)
  else succeed do
    let addr ← s.slots[s.top.toNat]?
    return { s with pc := ← sum? addr 2, top := ← difference? s.top 1 }

def call (s : Strict) (addr : Word) : Attempt :=
  if 16 ≤ s.top.toNat + 1 then s.fail (.stackOverflow s.pc)
  else succeed do
    let slots ← put? s.slots (s.top.toNat + 1) s.pc
    return { s with slots := slots, top := UInt8.ofNat (s.top.toNat + 1), pc := addr }

/-- The numbers of the cells that a sprite inverts, row by row. -/
def positions (sprite : Sprite) (x y : UInt8) : List Nat :=
  (sprite.take 15).zipIdx.flatMap fun (byte, row) =>
    ((List.range 8).filter (Sprite.bit byte)).map fun column =>
      ((x.toNat + column) % 64 + (y.toNat + row) * 64) % 2048

/-- Inverts the lowest bit of one cell, and notes in the flag whether the cell was 1. -/
def strike : Vector UInt8 2048 × Bool → Nat → Option (Vector UInt8 2048 × Bool)
  | (pixels, hit), position => do
    let byte ← pixels[position]?
    return (← put? pixels position (byte ^^^ 1), hit || byte == 1)

def draw (s : Strict) (x y n : Nat) : Attempt :=
  if s.index.toNat + n ≤ 4096 then succeed do
    let sprite ← slice? s.memory s.index.toNat n
    let (pixels, hit) ← (positions sprite (← s.get x) (← s.get y)).foldlM strike (s.pixels, false)
    let flagged ← { s with pixels := pixels }.set 15 (Arithmetic.flagByte hit)
    flagged.requestRedraw.next 2
  else s.fail (.addressOutOfRange s.index.toNat n)

def random (supply : Supply) (s : Strict) (x : Nat) (kk : UInt8) : Attempt :=
  let asked := { s with bytesAsked := s.bytesAsked + 1 }
  succeed do (← asked.set x (kk + supply.randomByte s.bytesAsked)).next 2

def awaitKey (supply : Supply) (s : Strict) (x : Nat) : Attempt :=
  let asked := { s with keysAsked := s.keysAsked + 1 }
  match supply.awaitedKey s.keysAsked s.keypad with
  | none => succeed (some asked)
  | some key => succeed do (← asked.set x key).next 2

def storeAtIndex (s : Strict) (len : Nat) (bytes : Option (List UInt8)) : Attempt :=
  if s.index.toNat + len ≤ 4096 then succeed do
    let memory ← fill? s.memory s.index.toNat len (← bytes)
    { s with memory := memory }.next 2
  else s.fail (.addressOutOfRange s.index.toNat len)

def loadAtIndex (s : Strict) (len : Nat) : Attempt :=
  if s.index.toNat + len ≤ 4096 then succeed do
    let registers ← fill? s.registers 0 len (← slice? s.memory s.index.toNat len)
    { s with registers := registers }.next 2
  else s.fail (.addressOutOfRange s.index.toNat len)

def update (s : Strict) (x : Nat) (f : UInt8 → UInt8) : Attempt :=
  succeed do (← s.set x (f (← s.get x))).next 2

def combine (s : Strict) (x y : Nat) (f : UInt8 → UInt8 → UInt8) : Attempt :=
  succeed do (← s.set x (f (← s.get x) (← s.get y))).next 2

/-- Puts what is computed from Vx and Vy into Vx, and the flag into VF before that. -/
def combineFlagged (s : Strict) (x y : Nat) (f : UInt8 → UInt8 → UInt8 × Bool) : Attempt :=
  succeed do (← s.setFlagged x (f (← s.get x) (← s.get y))).next 2

def skipOn (s : Strict) (x y : Nat) (test : UInt8 → UInt8 → Bool) : Attempt :=
  succeed do s.skipIf (test (← s.get x) (← s.get y))

def execute (supply : Supply) (s : Strict) : Instruction → Attempt
  | .clear => succeed ({ s with pixels := Vector.replicate 2048 0 }.requestRedraw.next 2)
  | .ret => s.ret
  | .jump addr => succeed (some { s with pc := addr })
  | .call addr => s.call addr
  | .skipIfByte x kk => s.skipOn x x fun vx _ => vx == kk
  | .skipUnlessByte x kk => s.skipOn x x fun vx _ => vx != kk
  | .skipIfSame x y => s.skipOn x y fun vx vy => vx == vy
  | .loadByte x kk => s.update x fun _ => kk
  | .addByte x kk => s.update x fun vx => vx + kk
  | .copy x y => s.combine x y fun _ vy => vy
  | .or x y => s.combine x y fun vx vy => vx ||| vy
  | .and x y => s.combine x y fun vx vy => vx &&& vy
  | .xor x y => s.combine x y fun vx vy => vx ^^^ vy
  | .add x y => s.combineFlagged x y Arithmetic.add
  | .subtract x y => s.combineFlagged x y Arithmetic.subtract
  | .shiftRight x => s.combineFlagged x x fun vx _ => Arithmetic.halve vx
  | .subtractFrom x y => s.combineFlagged x y fun vx vy => Arithmetic.subtract vy vx
  | .shiftLeft x => s.combineFlagged x x fun vx _ => Arithmetic.double vx
  | .skipUnlessSame x y => s.skipOn x y fun vx vy => vx != vy
  | .loadIndex addr => succeed ({ s with index := addr }.next 2)
  | .jumpOffset addr => succeed do
      return { s with pc := ← sum? addr (← s.get 0).toUInt16 }
  | .random x kk => s.random supply x kk
  | .draw x y n => s.draw x y n.toNat
  | .skipIfHeld x => s.skipOn x x fun vx _ => s.keypad.isDown vx
  | .skipUnlessHeld x => s.skipOn x x fun vx _ => !s.keypad.isDown vx
  | .readDelay x => s.update x fun _ => s.delay
  | .awaitKey x => s.awaitKey supply x
  | .setDelay x => succeed do
      let delay ← s.get x
      { s with delay := delay }.next 2
  | .setSound x => succeed do
      let sound ← s.get x
      { s with sound := sound }.next 2
  | .addIndex x => succeed do
      let vx ← s.get x
      { s with index := s.index + vx.toUInt16 }.next 2
  | .loadGlyph x => succeed do
      let index ← product? (← s.get x).toUInt16 5
      { s with index := index }.next 2
  | .storeDecimal x => s.storeAtIndex 3 ((s.get x).map Arithmetic.decimalDigits)
  | .storeRegisters x => s.storeAtIndex (x + 1) (slice? s.registers 0 (x + 1))
  | .loadRegisters x => s.loadAtIndex (x + 1)

def fetch (s : Strict) : Option (Except Fault Word) :=
  if 4096 ≤ s.pc.toNat + 1 then some (.error (.pcOutOfRange s.pc))
  else do
    return .ok (Word.ofBytes (← s.memory[s.pc.toNat]?) (← s.memory[s.pc.toNat + 1]?))

def lower (timer : UInt8) : Option UInt8 :=
  if 0 < timer.toNat then difference? timer 1 else some timer

def countDown (s : Strict) : Option Strict := do
  return { s with delay := ← lower s.delay, sound := ← lower s.sound }

def step (supply : Supply) (s : Strict) : Attempt := do
  match ← s.fetch with
  | .error fault => s.fail fault
  | .ok word =>
    match Instruction.decode word with
    | .error fault => s.fail fault
    | .ok ins =>
      match ← s.execute supply ins with
      | (.error fault, stopped) => stopped.fail fault
      | (.ok (), done) => succeed done.countDown

def install (s : Strict) (program : List UInt8) : Attempt :=
  if programCapacity < program.length then
    s.fail (.romTooLarge program.length programCapacity)
  else succeed do
    return { s with memory := ← fill? s.memory programStart program.length program }

/-- The machine after one operation, if there is one. -/
def act (supply : Supply) (s : Strict) : Operation → Option Strict
  | .step => (s.step supply).map Prod.snd
  | .press code => some { s with keypad := s.keypad.press code }
  | .releaseKeys => some { s with keypad := Keypad.released }
  | .takeRedraw => some { s with pendingRedraws := s.pendingRedraws - 1 }
  | .install program => (s.install program).map Prod.snd

/-- The machine after some operations, if none of them left its limits. -/
def run (supply : Supply) : Strict → List Operation → Option Strict
  | s, [] => some s
  | s, op :: ops => do (← s.act supply op).run supply ops

def initial : Strict where
  memory := Memory.initial
  registers := Vector.replicate 16 0
  index := 0
  pc := 0x200
  top := 0
  slots := Vector.replicate 16 0
  delay := 0
  sound := 0
  pixels := Vector.replicate 2048 0
  keypad := Keypad.released
  pendingRedraws := 0
  bytesAsked := 0
  keysAsked := 0

end Strict
end Chip8
