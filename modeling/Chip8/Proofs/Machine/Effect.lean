import Chip8.Proofs.Machine.Refusal

/-!
# What an instruction does

For each part of the machine, what an instruction makes of it: where the machine goes on
(`nextPc`), which return addresses are live (`nextLive`), and whether the picture changes and is
asked for (`draws`). The theorems `pc_execute`, `live_execute`, `picture_execute_of_not_draws` and
`pendingRedraws_execute_of_draws` tie these to `execute`; what a run does to such a part is argued
from them and never from `execute` itself. `step_cases` says the same of a step: it carries out
`current?` or changes nothing.
-/
namespace Chip8

/-- Whether the instruction changes the picture and asks for it to be shown. -/
def Instruction.draws : Instruction → Bool
  | clear | draw .. => true
  | _ => false

namespace Machine

/-- Where the machine goes on after an instruction that it accepts. -/
def nextPc (supply : Supply) (m : Machine) : Instruction → Word
  | .jump addr | .call addr => addr
  | .ret => m.calls.live.headD 0 + 2
  | .jumpOffset addr => addr + (m.reg 0).toUInt16
  | .skipIfByte x kk => if m.reg x == kk then m.pc + 4 else m.pc + 2
  | .skipUnlessByte x kk => if m.reg x != kk then m.pc + 4 else m.pc + 2
  | .skipIfSame x y => if m.reg x == m.reg y then m.pc + 4 else m.pc + 2
  | .skipUnlessSame x y => if m.reg x != m.reg y then m.pc + 4 else m.pc + 2
  | .skipIfHeld x => if m.keypad.isDown (m.reg x) then m.pc + 4 else m.pc + 2
  | .skipUnlessHeld x => if !m.keypad.isDown (m.reg x) then m.pc + 4 else m.pc + 2
  | .awaitKey _ => if (supply.awaitedKey m.keysAsked m.keypad).isSome then m.pc + 2 else m.pc
  | _ => m.pc + 2

/-- The live return addresses after an instruction that the machine accepts. -/
def nextLive (m : Machine) : Instruction → List Word
  | .call _ => m.pc :: m.calls.live
  | .ret => m.calls.live.tail
  | _ => m.calls.live

variable {m : Machine} {ins : Instruction}

theorem nextPc_ret (supply : Supply) : m.nextPc supply .ret = m.calls.live.headD 0 + 2 := rfl

theorem nextPc_jumpOffset (supply : Supply) (addr : Word) :
    m.nextPc supply (.jumpOffset addr) = addr + (m.reg 0).toUInt16 := rfl

theorem nextPc_awaitKey (supply : Supply) (x : Register) :
    m.nextPc supply (.awaitKey x) =
      if (supply.awaitedKey m.keysAsked m.keypad).isSome then m.pc + 2 else m.pc := rfl

theorem nextLive_ret : m.nextLive .ret = m.calls.live.tail := rfl

theorem nextLive_call (addr : Word) : m.nextLive (.call addr) = m.pc :: m.calls.live := rfl

theorem nextLive_of_other (hret : ins ≠ .ret) (hcall : ∀ addr, ins ≠ .call addr) :
    m.nextLive ins = m.calls.live := by
  cases ins with
  | ret => exact absurd rfl hret
  | call addr => exact absurd rfl (hcall addr)
  | _ => rfl

@[simp] theorem pc_skipIf (m : Machine) (condition : Bool) :
    (m.skipIf condition).pc = if condition then m.pc + 4 else m.pc + 2 := by
  cases condition <;> rfl

theorem reg_setReg_self (m : Machine) (x : Register) (byte : UInt8) :
    (m.setReg x byte).reg x = byte :=
  Vector.getElem_set_self x.isLt

theorem reg_setReg_of_ne (m : Machine) {x y : Register} (byte : UInt8) (h : y ≠ x) :
    (m.setReg x byte).reg y = m.reg y :=
  Vector.getElem_set_ne x.isLt y.isLt fun he => h (Fin.ext he.symm)

theorem loadRegs_eq (m : Machine) (bytes : List UInt8) :
    ∃ registers, m.loadRegs bytes = { m with registers := registers } :=
  ⟨_, by rw [loadRegs]⟩

@[simp] theorem pc_requestRedraw (m : Machine) : m.requestRedraw.pc = m.pc := by
  unfold requestRedraw
  split <;> rfl

@[simp] theorem calls_requestRedraw (m : Machine) : m.requestRedraw.calls = m.calls := by
  unfold requestRedraw
  split <;> rfl

theorem pendingRedraws_requestRedraw (m : Machine) :
    m.requestRedraw.pendingRedraws =
      if m.pendingRedraws < 5 then m.pendingRedraws + 1 else m.pendingRedraws := by
  unfold requestRedraw
  split <;> rfl

theorem pc_execute (h : m.refusal? ins = none) (supply : Supply) :
    (m.execute supply ins).state.pc = m.nextPc supply ins := by
  cases ins with
  | clear => exact congrArg (· + 2) (pc_requestRedraw _)
  | ret =>
    obtain ⟨addr, rest, calls, hl, -, hr⟩ := execute_ret h supply
    rw [hr, nextPc_ret, hl]
    rfl
  | call addr =>
    obtain ⟨calls, -, hc⟩ := execute_call h supply
    rw [hc]
    rfl
  | draw x y n =>
    rw [execute_draw h]
    exact congrArg (· + 2) (pc_requestRedraw _)
  | awaitKey x =>
    rw [execute, awaitKey, nextPc_awaitKey]
    split
    · next hk => rw [hk]; rfl
    · next key hk => rw [hk]; rfl
  | storeDecimal x => rw [execute_storeDecimal h]; rfl
  | storeRegisters x => rw [execute_storeRegisters h]; rfl
  | loadRegisters x =>
    obtain ⟨registers, hregs⟩ := m.loadRegs_eq
      (m.memory.read ⟨m.index.toNat, x + 1, fits_of_reach h⟩)
    rw [execute_loadRegisters h, hregs]
    rfl
  | skipIfByte | skipUnlessByte | skipIfSame | skipUnlessSame | skipIfHeld | skipUnlessHeld =>
    exact pc_skipIf m _
  | _ => rfl

theorem live_execute (h : m.refusal? ins = none) (supply : Supply) :
    (m.execute supply ins).state.calls.live = m.nextLive ins := by
  cases ins with
  | clear => exact congrArg CallStack.live (calls_requestRedraw _)
  | ret =>
    obtain ⟨addr, rest, calls, hl, hcalls, hr⟩ := execute_ret h supply
    rw [hr, nextLive_ret, hl]
    exact hcalls
  | call addr =>
    obtain ⟨calls, hcalls, hc⟩ := execute_call h supply
    rw [hc]
    exact hcalls
  | draw x y n =>
    rw [execute_draw h]
    exact congrArg CallStack.live (calls_requestRedraw _)
  | awaitKey x =>
    rw [execute, awaitKey]
    split <;> rfl
  | storeDecimal x => rw [execute_storeDecimal h]; rfl
  | storeRegisters x => rw [execute_storeRegisters h]; rfl
  | loadRegisters x =>
    obtain ⟨registers, hregs⟩ := m.loadRegs_eq
      (m.memory.read ⟨m.index.toNat, x + 1, fits_of_reach h⟩)
    rw [execute_loadRegisters h, hregs]
    rfl
  | _ => rfl

/-- An instruction that does not draw leaves the picture alone and asks for nothing. -/
theorem picture_execute_of_not_draws (h : m.refusal? ins = none) (hd : ins.draws = false)
    (supply : Supply) :
    (m.execute supply ins).state.frame = m.frame ∧
      (m.execute supply ins).state.pendingRedraws = m.pendingRedraws ∧
      (m.execute supply ins).log = [] := by
  cases ins with
  | clear => contradiction
  | draw x y n => contradiction
  | ret =>
    obtain ⟨addr, rest, calls, -, -, hr⟩ := execute_ret h supply
    rw [hr]
    exact ⟨rfl, rfl, rfl⟩
  | call addr =>
    obtain ⟨calls, -, hc⟩ := execute_call h supply
    rw [hc]
    exact ⟨rfl, rfl, rfl⟩
  | awaitKey x =>
    rw [execute, awaitKey]
    split <;> exact ⟨rfl, rfl, rfl⟩
  | storeDecimal x => rw [execute_storeDecimal h]; exact ⟨rfl, rfl, rfl⟩
  | storeRegisters x => rw [execute_storeRegisters h]; exact ⟨rfl, rfl, rfl⟩
  | loadRegisters x =>
    obtain ⟨registers, hregs⟩ := m.loadRegs_eq
      (m.memory.read ⟨m.index.toNat, x + 1, fits_of_reach h⟩)
    rw [execute_loadRegisters h, hregs]
    exact ⟨rfl, rfl, rfl⟩
  | _ => exact ⟨rfl, rfl, rfl⟩

/-- An instruction that draws asks for the picture once, and notes it if that is in vain. -/
theorem pendingRedraws_execute_of_draws (h : m.refusal? ins = none) (hd : ins.draws = true)
    (supply : Supply) :
    (m.execute supply ins).state.pendingRedraws = m.requestRedraw.pendingRedraws ∧
      (m.execute supply ins).log = m.redrawNotices := by
  cases ins with
  | clear => exact ⟨by simp only [execute, clear, advance, pendingRedraws_requestRedraw], rfl⟩
  | draw x y n =>
    rw [execute_draw h]
    exact ⟨by simp only [advance, setReg, pendingRedraws_requestRedraw], rfl⟩
  | _ => contradiction

/-- The instruction at the program counter, if there is one. -/
def current? (m : Machine) : Option Instruction :=
  match m.memory.wordAt? m.pc with
  | .error _ => none
  | .ok word =>
    match Instruction.decode word with
    | .error _ => none
    | .ok ins => some ins

theorem current?_of_decode {word : Word} (hw : m.memory.wordAt? m.pc = .ok word)
    (hd : Instruction.decode word = .ok ins) : m.current? = some ins := by
  simp only [current?, hw, hd]

/-- A step changes nothing, or it carries out the current instruction and counts down. -/
theorem step_cases (supply : Supply) (m : Machine) :
    (∃ fault log, .redrawDropped ∉ log ∧ m.step supply = ⟨.error fault, m, log⟩) ∨
    (∃ word ins, m.memory.wordAt? m.pc = .ok word ∧ m.current? = some ins ∧
      m.refusal? ins = none ∧ m.step supply =
        ⟨.ok (), (m.execute supply ins).state.countDown,
          .executing word ins m.registers m.index m.pc :: (m.execute supply ins).log⟩) := by
  cases hr : m.stepRefusal? with
  | some fault =>
    obtain ⟨log, hlog, hs⟩ := step_of_refusal hr
    exact .inl ⟨fault, log, hlog, hs supply⟩
  | none =>
    obtain ⟨word, ins, hw, hd, ha, hs⟩ := step_of_accepted hr
    exact .inr ⟨word, ins, hw, current?_of_decode hw hd, ha, hs supply⟩

/-- Whether a step carries out an instruction that draws. -/
def stepDraws (supply : Supply) (m : Machine) : Bool :=
  (m.step supply).result.isOk && m.current?.any Instruction.draws

theorem step_of_not_draws {supply : Supply} (h : m.stepDraws supply = false) :
    (m.step supply).state.frame = m.frame ∧
      (m.step supply).state.pendingRedraws = m.pendingRedraws ∧
      .redrawDropped ∉ (m.step supply).log := by
  rcases step_cases supply m with ⟨fault, log, hlog, hs⟩ | ⟨word, ins, -, hi, hr, hs⟩
  · rw [hs]
    exact ⟨rfl, rfl, hlog⟩
  · have hd : ins.draws = false := by
      rw [stepDraws, hs, hi] at h
      exact h
    obtain ⟨hframe, hpending, hlog⟩ := picture_execute_of_not_draws hr hd supply
    rw [hs, hlog]
    exact ⟨hframe, hpending, by simp⟩

theorem step_of_draws {supply : Supply} (h : m.stepDraws supply = true)
    (hroom : m.pendingRedraws < 5) :
    (m.step supply).result = .ok () ∧
      (m.step supply).state.pendingRedraws = m.pendingRedraws + 1 ∧
      .redrawDropped ∉ (m.step supply).log := by
  rcases step_cases supply m with ⟨fault, log, -, hs⟩ | ⟨word, ins, -, hi, hr, hs⟩
  · rw [stepDraws, hs] at h
    contradiction
  · have hd : ins.draws = true := by
      rw [stepDraws, hs, hi] at h
      exact h
    obtain ⟨hpending, hlog⟩ := pendingRedraws_execute_of_draws hr hd supply
    rw [pendingRedraws_requestRedraw, if_pos hroom] at hpending
    rw [redrawNotices, if_pos hroom] at hlog
    rw [hs, hlog]
    exact ⟨rfl, hpending, by simp⟩

end Machine
end Chip8
