import Chip8.Proofs.Machine.Effect

/-!
# The machine part by part

What an accepted instruction leaves in each part of the machine, read off the machine before. A
table names the instructions that change its part; any other leaves it alone. `execute_eq` says that
the parts make up the whole outcome, so what is said of a part is argued from its table and never
from `execute`. A refused instruction leaves everything alone and is not covered.
-/
namespace Chip8

/-- The two counters that every step takes down. -/
inductive Timer where
  | delay | sound
  deriving DecidableEq, Repr

namespace Instruction

/-- The register that the timer is set from, if the instruction sets it. -/
def setsTimer? : Timer → Instruction → Option Register
  | .delay, .setDelay x => some x
  | .sound, .setSound x => some x
  | _, _ => none

/-- How many bytes the instruction takes from memory, from the index on. -/
def readLength : Instruction → Nat
  | draw _ _ n => n.toNat
  | loadRegisters x => x + 1
  | _ => 0

/-- How many bytes the instruction puts into memory, from the index on. -/
def storeLength : Instruction → Nat
  | storeDecimal _ => 3
  | storeRegisters x => x + 1
  | _ => 0

end Instruction

namespace Machine

def timer (m : Machine) : Timer → UInt8
  | .delay => m.delay
  | .sound => m.sound

/-- `len` bytes from the index on, or none at all if not all of them exist. -/
def bytesAtIndex (m : Machine) (len : Nat) : List UInt8 :=
  match Span.at? m.index len with
  | .error _ => []
  | .ok span => m.memory.read span

/-- The bytes that an instruction puts into memory, from the index on. -/
def stored (m : Machine) : Instruction → List UInt8
  | .storeDecimal x => Arithmetic.decimalDigits (m.reg x)
  | .storeRegisters x => m.regsTo x
  | _ => []

/-- The frame with the sprite at the index drawn, and whether a lit cell went dark. -/
def drawn (m : Machine) (x y : Register) (n : UInt8) : Frame × Bool :=
  m.frame.draw (m.bytesAtIndex n.toNat) (m.reg x) (m.reg y)

/-- The registers with the given bytes in V0 and the registers behind it. -/
def loaded (registers : Registers) (bytes : List UInt8) : Registers :=
  Vector.ofFn fun x => (bytes[x.val]?).getD (registers.get x)

theorem loadRegs_eq_loaded (m : Machine) (bytes : List UInt8) :
    m.loadRegs bytes = { m with registers := loaded m.registers bytes } := rfl

theorem get_loaded (registers : Registers) (bytes : List UInt8) (y : Register) :
    (loaded registers bytes).get y = (bytes[y.val]?).getD (registers.get y) :=
  Vector.getElem_ofFn y.isLt

-- or else comparing two machines goes through all sixteen registers
attribute [irreducible] loaded

def nextRegisters (supply : Supply) (m : Machine) : Instruction → Registers
  | .loadByte x kk => (m.setReg x kk).registers
  | .addByte x kk => (m.setReg x (m.reg x + kk)).registers
  | .copy x y => (m.setReg x (m.reg y)).registers
  | .or x y => (m.setReg x (m.reg x ||| m.reg y)).registers
  | .and x y => (m.setReg x (m.reg x &&& m.reg y)).registers
  | .xor x y => (m.setReg x (m.reg x ^^^ m.reg y)).registers
  | .add x y => (m.setFlagged x (Arithmetic.add (m.reg x) (m.reg y))).registers
  | .subtract x y => (m.setFlagged x (Arithmetic.subtract (m.reg x) (m.reg y))).registers
  | .shiftRight x => (m.setFlagged x (Arithmetic.halve (m.reg x))).registers
  | .subtractFrom x y => (m.setFlagged x (Arithmetic.subtract (m.reg y) (m.reg x))).registers
  | .shiftLeft x => (m.setFlagged x (Arithmetic.double (m.reg x))).registers
  | .random x kk => (m.setReg x (kk + supply.randomByte m.bytesAsked)).registers
  | .draw x y n => (m.setReg 0xF (Arithmetic.flagByte (m.drawn x y n).2)).registers
  | .readDelay x => (m.setReg x m.delay).registers
  | .awaitKey x =>
    match supply.awaitedKey m.keysAsked m.keypad with
    | none => m.registers
    | some key => (m.setReg x key).registers
  | .loadRegisters x => loaded m.registers (m.bytesAtIndex (x + 1))
  | _ => m.registers

def nextIndex (m : Machine) : Instruction → Word
  | .loadIndex addr => addr
  | .addIndex x => m.index + (m.reg x).toUInt16
  | .loadGlyph x => (m.reg x).toUInt16 * 5
  | _ => m.index

def nextCalls (m : Machine) : Instruction → CallStack
  | .call _ => (m.calls.push? m.pc).getD m.calls
  | .ret => m.calls.pop?.elim m.calls Prod.snd
  | _ => m.calls

def nextTimer (m : Machine) (t : Timer) (ins : Instruction) : UInt8 :=
  match ins.setsTimer? t with
  | none => m.timer t
  | some x => m.reg x

def nextFrame (m : Machine) : Instruction → Frame
  | .clear => Frame.blank
  | .draw x y n => (m.drawn x y n).1
  | _ => m.frame

def nextPending (m : Machine) (ins : Instruction) : Nat :=
  if ins.draws then
    if m.pendingRedraws < 5 then m.pendingRedraws + 1 else m.pendingRedraws
  else m.pendingRedraws

def nextBytesAsked (m : Machine) : Instruction → Nat
  | .random _ _ => m.bytesAsked + 1
  | _ => m.bytesAsked

def nextKeysAsked (m : Machine) : Instruction → Nat
  | .awaitKey _ => m.keysAsked + 1
  | _ => m.keysAsked

/-- The machine after an instruction that it accepts. -/
def next (supply : Supply) (m : Machine) (ins : Instruction) : Machine where
  memory := m.memory.write m.index.toNat (m.stored ins)
  registers := m.nextRegisters supply ins
  index := m.nextIndex ins
  pc := m.nextPc supply ins
  calls := m.nextCalls ins
  delay := m.nextTimer .delay ins
  sound := m.nextTimer .sound ins
  frame := m.nextFrame ins
  keypad := m.keypad
  pendingRedraws := m.nextPending ins
  bytesAsked := m.nextBytesAsked ins
  keysAsked := m.nextKeysAsked ins

variable {supply : Supply} {m : Machine} {ins : Instruction}

theorem nextCalls_call (addr : Word) :
    m.nextCalls (.call addr) = (m.calls.push? m.pc).getD m.calls := rfl

theorem nextCalls_ret : m.nextCalls .ret = m.calls.pop?.elim m.calls Prod.snd := rfl

theorem bytesAtIndex_of_fits {len : Nat} (h : m.index.toNat + len ≤ 4096) :
    m.bytesAtIndex len = m.memory.read ⟨m.index.toNat, len, h⟩ := by
  rw [bytesAtIndex, Span.at?_of_fits h]

theorem requestRedraw_eq (m : Machine) :
    m.requestRedraw = { m with
      pendingRedraws := if m.pendingRedraws < 5 then m.pendingRedraws + 1 else m.pendingRedraws } := by
  unfold requestRedraw
  split <;> rfl

theorem skipIf_eq (m : Machine) (condition : Bool) :
    m.skipIf condition = { m with pc := if condition then m.pc + 4 else m.pc + 2 } := by
  cases condition <;> rfl

/-- An accepted instruction leaves in every part what the part's table says, and notes no more than
a dropped request. -/
theorem execute_eq (h : m.refusal? ins = none) (supply : Supply) :
    m.execute supply ins =
      ⟨.ok (), m.next supply ins, if ins.draws then m.redrawNotices else []⟩ := by
  cases ins with
  | clear =>
    rw [execute, clear, requestRedraw_eq]
    rfl
  | ret =>
    cases hp : m.calls.pop? with
    | none =>
      rw [refusal?, if_pos ((CallStack.pop?_eq_none_iff _).mp hp)] at h
      contradiction
    | some top =>
      obtain ⟨addr, calls⟩ := top
      have hlive := CallStack.live_of_pop? hp
      rw [next, nextPc_ret, nextCalls_ret, execute, ret, hp, hlive]
      rfl
  | call addr =>
    cases hp : m.calls.push? m.pc with
    | none =>
      rw [refusal?, if_pos ((CallStack.push?_eq_none_iff _ _).mp hp)] at h
      contradiction
    | some calls =>
      rw [next, nextCalls_call, execute, call, hp]
      rfl
  | draw x y n =>
    rw [execute_draw h, ← bytesAtIndex_of_fits]
    show (⟨.ok (), ({ m with frame := (m.drawn x y n).1 }.setReg 0xF
      (Arithmetic.flagByte (m.drawn x y n).2)).requestRedraw.advance, m.redrawNotices⟩ :
        Outcome Machine Unit) = _
    rw [requestRedraw_eq]
    rfl
  | awaitKey x =>
    rw [execute, awaitKey, next, nextPc_awaitKey, nextRegisters]
    cases supply.awaitedKey m.keysAsked m.keypad <;> rfl
  | storeDecimal x => rw [execute_storeDecimal h]; rfl
  | storeRegisters x => rw [execute_storeRegisters h]; rfl
  | loadRegisters x =>
    rw [execute_loadRegisters h, ← bytesAtIndex_of_fits, loadRegs_eq_loaded]
    rfl
  | skipIfByte | skipUnlessByte | skipIfSame | skipUnlessSame | skipIfHeld | skipUnlessHeld =>
    rw [execute, skipIf_eq]
    rfl
  | _ => rfl

theorem accepted_of_ok (h : (m.execute supply ins).result = .ok ()) : m.refusal? ins = none := by
  cases hr : m.refusal? ins with
  | none => rfl
  | some fault =>
    rw [execute_of_refusal hr] at h
    contradiction

theorem stepRefusal?_of_current (h : m.current? = some ins) :
    m.stepRefusal? = m.refusal? ins := by
  unfold current? at h
  split at h
  · contradiction
  · next word hw =>
    split at h
    · contradiction
    · next decoded hd =>
      obtain rfl := Option.some.inj h
      simp only [stepRefusal?, hw, hd]

theorem step_ok_of_accepted (hi : m.current? = some ins) (h : m.refusal? ins = none) :
    (m.step supply).result = .ok () := by
  have hr : m.stepRefusal? = none := (stepRefusal?_of_current hi).trans h
  obtain ⟨_, _, -, -, -, hs⟩ := step_of_accepted hr
  rw [hs]

theorem accepted_of_step_ok (h : (m.step supply).result = .ok ()) (hi : m.current? = some ins) :
    m.refusal? ins = none := by
  rcases step_cases supply m with ⟨fault, log, -, hs⟩ | ⟨word, decoded, -, hd, hr, -⟩
  · rw [hs] at h
    contradiction
  · obtain rfl : decoded = ins := Option.some.inj (hd.symm.trans hi)
    exact hr

/-- A step that succeeds carries out the current instruction and then counts down. -/
theorem step_state_of_ok (h : (m.step supply).result = .ok ()) :
    ∃ ins, m.current? = some ins ∧ (m.step supply).state = (m.next supply ins).countDown := by
  rcases step_cases supply m with ⟨fault, log, -, hs⟩ | ⟨word, ins, -, hi, hr, hs⟩
  · rw [hs] at h
    contradiction
  · refine ⟨ins, hi, ?_⟩
    rw [hs, execute_eq hr supply]

theorem step_state_of_error {fault : Fault} (h : (m.step supply).result = .error fault) :
    (m.step supply).state = m := by
  rcases step_cases supply m with ⟨fault, log, -, hs⟩ | ⟨word, ins, -, -, -, hs⟩
  · rw [hs]
  · rw [hs] at h
    contradiction

end Machine
end Chip8
