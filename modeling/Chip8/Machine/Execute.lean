import Chip8.Instruction.Decode
import Chip8.Machine.Basic
import Chip8.Outcome
import Chip8.Supply

/-!
# Instructions and steps

Most instructions always succeed and move on by one word; skips move on by two when their condition
holds, and jumps, calls and returns say where to go on. Only calls, returns and accesses to memory
can fail, and they look before they change anything. A step reads the word at the program counter,
decodes it, carries it out and then counts the timers down; a failure on the way leaves the timers
alone.
-/
namespace Chip8.Machine

def clear (m : Machine) : Outcome Machine Unit :=
  ⟨.ok (), { m with frame := Frame.blank }.requestRedraw.advance, m.redrawNotices⟩

/-- Goes on behind the newest call. -/
def ret (m : Machine) : Outcome Machine Unit :=
  match m.calls.pop? with
  | none => .failed (.stackUnderflow m.pc) m
  | some (addr, calls) => .done () { m with calls := calls, pc := addr + 2 }

/-- Notes where the call is and goes on at `addr`. -/
def call (m : Machine) (addr : Word) : Outcome Machine Unit :=
  match m.calls.push? m.pc with
  | none => .failed (.stackOverflow m.pc) m
  | some calls => .done () { m with calls := calls, pc := addr }

def random (supply : Supply) (m : Machine) (x : Register) (kk : UInt8) : Outcome Machine Unit :=
  .done () ({ m with bytesAsked := m.bytesAsked + 1 }.setReg x
    (kk + supply.randomByte m.bytesAsked)).advance

/-- Draws the `n` bytes at the index with the top left corner at Vx, Vy; VF says whether a lit
cell went dark. -/
def draw (m : Machine) (x y : Register) (n : UInt8) : Outcome Machine Unit :=
  match Span.at? m.index n.toNat with
  | .error fault => .failed fault m
  | .ok span =>
    let (frame, hit) := m.frame.draw (m.memory.read span) (m.reg x) (m.reg y)
    ⟨.ok (), ({ m with frame := frame }.setReg 0xF (Arithmetic.flagByte hit)).requestRedraw.advance,
      m.redrawNotices⟩

/-- Asks for a key. With one, Vx gets it; without, the program counter stays. -/
def awaitKey (supply : Supply) (m : Machine) (x : Register) : Outcome Machine Unit :=
  let counted := { m with keysAsked := m.keysAsked + 1 }
  match supply.awaitedKey m.keysAsked m.keypad with
  | none => .done () counted
  | some key => .done () (counted.setReg x key).advance

def storeAtIndex (m : Machine) (bytes : List UInt8) : Outcome Machine Unit :=
  match Span.at? m.index bytes.length with
  | .error fault => .failed fault m
  | .ok span => .done () { m with memory := m.memory.write span.start bytes }.advance

def loadAtIndex (m : Machine) (x : Register) : Outcome Machine Unit :=
  match Span.at? m.index (x + 1) with
  | .error fault => .failed fault m
  | .ok span => .done () (m.loadRegs (m.memory.read span)).advance

def execute (supply : Supply) (m : Machine) : Instruction → Outcome Machine Unit
  | .clear => m.clear
  | .ret => m.ret
  | .jump addr => .done () { m with pc := addr }
  | .call addr => m.call addr
  | .skipIfByte x kk => .done () (m.skipIf (m.reg x == kk))
  | .skipUnlessByte x kk => .done () (m.skipIf (m.reg x != kk))
  | .skipIfSame x y => .done () (m.skipIf (m.reg x == m.reg y))
  | .loadByte x kk => .done () (m.setReg x kk).advance
  | .addByte x kk => .done () (m.setReg x (m.reg x + kk)).advance
  | .copy x y => .done () (m.setReg x (m.reg y)).advance
  | .or x y => .done () (m.setReg x (m.reg x ||| m.reg y)).advance
  | .and x y => .done () (m.setReg x (m.reg x &&& m.reg y)).advance
  | .xor x y => .done () (m.setReg x (m.reg x ^^^ m.reg y)).advance
  | .add x y => .done () (m.setFlagged x (Arithmetic.add (m.reg x) (m.reg y))).advance
  | .subtract x y => .done () (m.setFlagged x (Arithmetic.subtract (m.reg x) (m.reg y))).advance
  | .shiftRight x => .done () (m.setFlagged x (Arithmetic.halve (m.reg x))).advance
  | .subtractFrom x y =>
    .done () (m.setFlagged x (Arithmetic.subtract (m.reg y) (m.reg x))).advance
  | .shiftLeft x => .done () (m.setFlagged x (Arithmetic.double (m.reg x))).advance
  | .skipUnlessSame x y => .done () (m.skipIf (m.reg x != m.reg y))
  | .loadIndex addr => .done () { m with index := addr }.advance
  | .jumpOffset addr => .done () { m with pc := addr + (m.reg 0).toUInt16 }
  | .random x kk => m.random supply x kk
  | .draw x y n => m.draw x y n
  | .skipIfHeld x => .done () (m.skipIf (m.keypad.isDown (m.reg x)))
  | .skipUnlessHeld x => .done () (m.skipIf (!m.keypad.isDown (m.reg x)))
  | .readDelay x => .done () (m.setReg x m.delay).advance
  | .awaitKey x => m.awaitKey supply x
  | .setDelay x => .done () { m with delay := m.reg x }.advance
  | .setSound x => .done () { m with sound := m.reg x }.advance
  | .addIndex x => .done () { m with index := m.index + (m.reg x).toUInt16 }.advance
  | .loadGlyph x => .done () { m with index := (m.reg x).toUInt16 * 5 }.advance
  | .storeDecimal x => m.storeAtIndex (Arithmetic.decimalDigits (m.reg x))
  | .storeRegisters x => m.storeAtIndex (m.regsTo x)
  | .loadRegisters x => m.loadAtIndex x

/-- Decodes a word and carries it out. The notice shows the machine before the instruction; a word
that is no instruction gives none. -/
def perform (supply : Supply) (m : Machine) (word : Word) : Outcome Machine Unit :=
  match Instruction.decode word with
  | .error fault => .failed fault m
  | .ok ins => (m.execute supply ins).after [.executing word ins m.registers m.index m.pc]

/-- Carries out the instruction at the program counter. -/
def step (supply : Supply) (m : Machine) : Outcome Machine Unit :=
  match m.memory.wordAt? m.pc with
  | .error fault => .failed fault m
  | .ok word => (m.perform supply word).andThen fun _ stepped => .done () stepped.countDown

end Chip8.Machine
