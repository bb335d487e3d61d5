import Chip8.Proofs.Machine.Operation

/-!
# Refusals

A machine refuses an instruction before it has changed anything. `refusal?` reads off the machine
alone whether an instruction is refused and why, and `stepRefusal?` does so for the instruction at
the program counter; neither looks at the supply. `execute_of_refusal` and `execute_of_accepted` say
that this is all that can go wrong with an instruction, and `step_of_refusal` and `step_of_accepted`
say what a step comes to. What an accepted instruction does to the machine is not said here.
-/
namespace Chip8

theorem Span.at?_of_fits {addr : Word} {len : Nat} (h : addr.toNat + len ≤ 4096) :
    Span.at? addr len = .ok ⟨addr.toNat, len, h⟩ := by
  rw [Span.at?, dif_pos h]

theorem Span.at?_of_not_fits {addr : Word} {len : Nat} (h : ¬ addr.toNat + len ≤ 4096) :
    Span.at? addr len = .error (.addressOutOfRange addr.toNat len) := by
  rw [Span.at?, dif_neg h]

namespace Machine

/-- The fault of `len` bytes from the index on, if they do not all exist. -/
def reachRefusal? (m : Machine) (len : Nat) : Option Fault :=
  if m.index.toNat + len ≤ 4096 then none else some (.addressOutOfRange m.index.toNat len)

def refusal? (m : Machine) : Instruction → Option Fault
  | .ret => if m.calls.live = [] then some (.stackUnderflow m.pc) else none
  | .call _ => if m.calls.live.length = 15 then some (.stackOverflow m.pc) else none
  | .draw _ _ n => m.reachRefusal? n.toNat
  | .storeDecimal _ => m.reachRefusal? 3
  | .storeRegisters x | .loadRegisters x => m.reachRefusal? (x + 1)
  | _ => none

def stepRefusal? (m : Machine) : Option Fault :=
  match m.memory.wordAt? m.pc with
  | .error fault => some fault
  | .ok word =>
    match Instruction.decode word with
    | .error fault => some fault
    | .ok ins => m.refusal? ins

theorem fits_of_reach {m : Machine} {len : Nat} (h : m.reachRefusal? len = none) :
    m.index.toNat + len ≤ 4096 := by
  unfold reachRefusal? at h
  split at h
  · assumption
  · contradiction

theorem at?_of_reach {m : Machine} {len : Nat} {fault : Fault}
    (h : m.reachRefusal? len = some fault) : Span.at? m.index len = .error fault := by
  unfold reachRefusal? at h
  split at h
  · contradiction
  · next hn =>
    obtain rfl := Option.some.inj h
    exact Span.at?_of_not_fits hn

theorem length_regsTo (m : Machine) (x : Register) : (m.regsTo x).length = x + 1 := by
  have hx := x.isLt
  rw [regsTo, List.length_take, Vector.length_toList]
  omega

theorem storeAtIndex_of_reach {m : Machine} {bytes : List UInt8} {fault : Fault}
    (h : m.reachRefusal? bytes.length = some fault) : m.storeAtIndex bytes = .failed fault m := by
  rw [storeAtIndex, at?_of_reach h]

theorem storeAtIndex_of_fits {m : Machine} {bytes : List UInt8}
    (h : m.reachRefusal? bytes.length = none) :
    m.storeAtIndex bytes =
      .done () { m with memory := m.memory.write m.index.toNat bytes }.advance := by
  rw [storeAtIndex, Span.at?_of_fits (fits_of_reach h)]

/-- A refused instruction leaves the machine and the supply alone. -/
theorem execute_of_refusal {m : Machine} {ins : Instruction} {fault : Fault}
    (h : m.refusal? ins = some fault) (supply : Supply) :
    m.execute supply ins = .failed fault m := by
  cases ins with
  | ret =>
    rw [refusal?] at h
    split at h
    · next hl =>
      obtain rfl := Option.some.inj h
      rw [execute, ret, (CallStack.pop?_eq_none_iff _).mpr hl]
    · contradiction
  | call addr =>
    rw [refusal?] at h
    split at h
    · next hl =>
      obtain rfl := Option.some.inj h
      rw [execute, call, (CallStack.push?_eq_none_iff _ _).mpr hl]
    · contradiction
  | draw x y n => rw [execute, draw, at?_of_reach h]
  | storeDecimal x => exact storeAtIndex_of_reach h
  | storeRegisters x =>
    apply storeAtIndex_of_reach
    rw [length_regsTo]
    exact h
  | loadRegisters x => rw [execute, loadAtIndex, at?_of_reach h]
  | _ => cases h

variable {m : Machine} {x y : Register}

theorem execute_ret (h : m.refusal? .ret = none) (supply : Supply) :
    ∃ addr rest calls, m.calls.live = addr :: rest ∧ calls.live = rest ∧
      m.execute supply .ret = .done () { m with calls := calls, pc := addr + 2 } := by
  have hne : m.calls.pop? ≠ none := by
    intro hp
    simp [refusal?, (CallStack.pop?_eq_none_iff _).mp hp] at h
  obtain ⟨⟨addr, calls⟩, hp⟩ := Option.ne_none_iff_exists'.mp hne
  exact ⟨addr, calls.live, calls, CallStack.live_of_pop? hp, rfl, by rw [execute, ret, hp]⟩

theorem execute_call {addr : Word} (h : m.refusal? (.call addr) = none) (supply : Supply) :
    ∃ calls, calls.live = m.pc :: m.calls.live ∧
      m.execute supply (.call addr) = .done () { m with calls := calls, pc := addr } := by
  have hne : m.calls.push? m.pc ≠ none := by
    intro hp
    simp [refusal?, (CallStack.push?_eq_none_iff _ _).mp hp] at h
  obtain ⟨calls, hp⟩ := Option.ne_none_iff_exists'.mp hne
  exact ⟨calls, CallStack.live_of_push? hp, by rw [execute, call, hp]⟩

theorem execute_draw {n : UInt8} (h : m.refusal? (.draw x y n) = none) (supply : Supply) :
    m.execute supply (.draw x y n) =
      let sprite := m.memory.read ⟨m.index.toNat, n.toNat, fits_of_reach h⟩
      let drawn := m.frame.draw sprite (m.reg x) (m.reg y)
      ⟨.ok (), ({ m with frame := drawn.1 }.setReg 0xF
        (Arithmetic.flagByte drawn.2)).requestRedraw.advance, m.redrawNotices⟩ := by
  rw [execute, draw, Span.at?_of_fits (fits_of_reach h)]

theorem execute_storeDecimal (h : m.refusal? (.storeDecimal x) = none) (supply : Supply) :
    m.execute supply (.storeDecimal x) =
      .done () { m with
        memory := m.memory.write m.index.toNat (Arithmetic.decimalDigits (m.reg x)) }.advance :=
  storeAtIndex_of_fits h

theorem execute_storeRegisters (h : m.refusal? (.storeRegisters x) = none) (supply : Supply) :
    m.execute supply (.storeRegisters x) =
      .done () { m with memory := m.memory.write m.index.toNat (m.regsTo x) }.advance := by
  apply storeAtIndex_of_fits
  rw [length_regsTo]
  exact h

theorem execute_loadRegisters (h : m.refusal? (.loadRegisters x) = none) (supply : Supply) :
    m.execute supply (.loadRegisters x) =
      .done () (m.loadRegs
        (m.memory.read ⟨m.index.toNat, x + 1, fits_of_reach h⟩)).advance := by
  rw [execute, loadAtIndex, Span.at?_of_fits (fits_of_reach h)]

/-- An instruction that is not refused succeeds. -/
theorem execute_of_accepted {ins : Instruction} (h : m.refusal? ins = none) (supply : Supply) :
    (m.execute supply ins).result = .ok () := by
  cases ins with
  | ret =>
    obtain ⟨addr, rest, calls, -, -, hr⟩ := execute_ret h supply
    rw [hr]
    rfl
  | call addr =>
    obtain ⟨calls, -, hc⟩ := execute_call h supply
    rw [hc]
    rfl
  | draw x y n => rw [execute_draw h]
  | awaitKey x =>
    rw [execute, awaitKey]
    split <;> rfl
  | storeDecimal x => rw [execute_storeDecimal h]; rfl
  | storeRegisters x => rw [execute_storeRegisters h]; rfl
  | loadRegisters x => rw [execute_loadRegisters h]; rfl
  | _ => rfl

theorem refusal_of_error {ins : Instruction} {supply : Supply} {fault : Fault}
    (h : (m.execute supply ins).result = .error fault) : m.refusal? ins = some fault := by
  cases hr : m.refusal? ins with
  | none =>
    rw [execute_of_accepted hr supply] at h
    contradiction
  | some other =>
    rw [execute_of_refusal hr supply] at h
    exact congrArg some (Except.error.inj h)

theorem perform_of_unknown {word : Word} {fault : Fault}
    (h : Instruction.decode word = .error fault) (supply : Supply) :
    m.perform supply word = .failed fault m := by
  rw [perform, h]

theorem perform_of_decode {word : Word} {ins : Instruction}
    (h : Instruction.decode word = .ok ins) (supply : Supply) :
    m.perform supply word =
      (m.execute supply ins).after [.executing word ins m.registers m.index m.pc] := by
  rw [perform, h]

/-- A word that fails leaves the machine alone, and fails alike whatever is supplied. -/
theorem perform_of_error {supply : Supply} {word : Word} {fault : Fault}
    (h : (m.perform supply word).result = .error fault) :
    ∃ log, ∀ other, m.perform other word = ⟨.error fault, m, log⟩ := by
  cases hd : Instruction.decode word with
  | error cause =>
    rw [perform_of_unknown hd] at h
    obtain rfl := Except.error.inj h
    exact ⟨[], perform_of_unknown hd⟩
  | ok ins =>
    rw [perform_of_decode hd] at h
    have hr : m.refusal? ins = some fault := refusal_of_error h
    refine ⟨[.executing word ins m.registers m.index m.pc], fun other => ?_⟩
    rw [perform_of_decode hd, execute_of_refusal hr]
    rfl

theorem step_of_fetch {word : Word} (h : m.memory.wordAt? m.pc = .ok word)
    (supply : Supply) :
    m.step supply =
      (m.perform supply word).andThen fun _ stepped => .done () stepped.countDown := by
  rw [step, h]

/-- A step that cannot be taken leaves the machine and the supply alone, and drops no request. -/
theorem step_of_refusal {fault : Fault} (h : m.stepRefusal? = some fault) :
    ∃ log, .redrawDropped ∉ log ∧ ∀ supply, m.step supply = ⟨.error fault, m, log⟩ := by
  unfold stepRefusal? at h
  split at h
  · next cause hw =>
    obtain rfl := Option.some.inj h
    exact ⟨[], List.not_mem_nil, fun supply => by rw [step, hw]; rfl⟩
  · next word hw =>
    split at h
    · next cause hd =>
      obtain rfl := Option.some.inj h
      refine ⟨[], List.not_mem_nil, fun supply => ?_⟩
      rw [step_of_fetch hw, perform_of_unknown hd]
      rfl
    · next ins hd =>
      refine ⟨[.executing word ins m.registers m.index m.pc], by simp, fun supply => ?_⟩
      rw [step_of_fetch hw, perform_of_decode hd, execute_of_refusal h]
      rfl

/-- Any other step carries out the instruction at the program counter and counts down. -/
theorem step_of_accepted (h : m.stepRefusal? = none) :
    ∃ word ins, m.memory.wordAt? m.pc = .ok word ∧ Instruction.decode word = .ok ins ∧
      m.refusal? ins = none ∧ ∀ supply, m.step supply =
        ⟨.ok (), (m.execute supply ins).state.countDown,
          .executing word ins m.registers m.index m.pc :: (m.execute supply ins).log⟩ := by
  unfold stepRefusal? at h
  split at h
  · contradiction
  · next word hw =>
    split at h
    · contradiction
    · next ins hd =>
      refine ⟨word, ins, hw, hd, h, fun supply => ?_⟩
      have hok : ((m.execute supply ins).after
          [.executing word ins m.registers m.index m.pc]).result = .ok () :=
        execute_of_accepted h supply
      rw [step_of_fetch hw, perform_of_decode hd, Outcome.andThen_of_ok hok]
      simp only [Outcome.after, Outcome.done, List.append_nil, List.singleton_append]

theorem stepRefusal_of_error {supply : Supply} {fault : Fault}
    (h : (m.step supply).result = .error fault) : m.stepRefusal? = some fault := by
  cases hr : m.stepRefusal? with
  | none =>
    obtain ⟨_, _, _, _, _, hs⟩ := step_of_accepted hr
    rw [hs supply] at h
    contradiction
  | some cause =>
    obtain ⟨log, -, hs⟩ := step_of_refusal hr
    rw [hs supply] at h
    exact congrArg some (Except.error.inj h)

/-- A machine that cannot step is where any number of further tries leaves it. -/
theorem run_steps_of_refusal {fault : Fault} (h : m.stepRefusal? = some fault)
    (supply : Supply) (tries : Nat) : m.run supply (List.replicate tries .step) = m := by
  obtain ⟨log, -, hs⟩ := step_of_refusal h
  induction tries with
  | zero => rfl
  | succ tries ih =>
    have hm : m.act supply .step = m := by rw [act, hs supply]
    rw [List.replicate_succ, run, hm]
    exact ih

/-- Whatever fails leaves the whole machine as it was and has asked the supply for nothing: it
would have failed alike with any other supply. This goes for an instruction, for a word and for a
step, and a failed step fails again in the same way however often it is tried. -/
theorem failed_unchanged (supply : Supply) (m : Machine) (fault : Fault) :
    (∀ ins, (m.execute supply ins).result = .error fault →
      (m.execute supply ins).state = m ∧ ∀ other, m.execute other ins = m.execute supply ins) ∧
    (∀ word, (m.perform supply word).result = .error fault →
      (m.perform supply word).state = m ∧
        ∀ other, m.perform other word = m.perform supply word) ∧
    ((m.step supply).result = .error fault →
      (m.step supply).state = m ∧ (∀ other, m.step other = m.step supply) ∧
        ∀ tries, (m.run supply (List.replicate tries .step)) = m ∧
          ((m.run supply (List.replicate tries .step)).step supply) = m.step supply) := by
  refine ⟨fun ins h => ?_, fun word h => ?_, fun h => ?_⟩
  · have hr := refusal_of_error h
    rw [execute_of_refusal hr supply]
    exact ⟨rfl, execute_of_refusal hr⟩
  · obtain ⟨log, hall⟩ := perform_of_error h
    rw [hall supply]
    exact ⟨rfl, hall⟩
  · have hr := stepRefusal_of_error h
    obtain ⟨log, -, hall⟩ := step_of_refusal hr
    refine ⟨by rw [hall supply], fun other => by rw [hall other, hall supply], fun tries => ?_⟩
    have hrun := run_steps_of_refusal hr supply tries
    exact ⟨hrun, by rw [hrun]⟩

set_option maxRecDepth 20000 in
/-- A program that begins with a return: its instruction, its word and its step all fail. -/
theorem failed_unchanged_lone_ret :
    ((initial.install [0x00, 0xEE]).state.execute ⟨fun _ => 0, Supply.heldKey⟩ .ret).state =
        (initial.install [0x00, 0xEE]).state ∧
      ((initial.install [0x00, 0xEE]).state.perform ⟨fun _ => 0, Supply.heldKey⟩ 0x00EE).state =
        (initial.install [0x00, 0xEE]).state ∧
      ((initial.install [0x00, 0xEE]).state.step ⟨fun _ => 0, Supply.heldKey⟩).state =
        (initial.install [0x00, 0xEE]).state := by
  obtain ⟨hi, hw, hs⟩ := failed_unchanged ⟨fun _ => 0, Supply.heldKey⟩
    (initial.install [0x00, 0xEE]).state (.stackUnderflow 0x200)
  exact ⟨(hi .ret rfl).1, (hw 0x00EE rfl).1, (hs rfl).1⟩

end Machine
end Chip8
