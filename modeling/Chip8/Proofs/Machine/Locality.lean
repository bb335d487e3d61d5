import Chip8.Proofs.Machine.Footprint

/-!
# Steps are local in memory

A step reads the word at the program counter and, if it draws or loads registers, some bytes from
the index on; it stores some bytes from the index on or none. `LooksAt` and `StoresAt` are these
bytes. Two machines that differ in their memories only, and in no byte that the step looks at, step
alike: `StepsAlike` says what that means for the result, for the memories and for the rest. Nothing
is said of machines that differ elsewhere.
-/
namespace Chip8

theorem Memory.wordAt?_congr {memory other : Memory} {pc : Word}
    (h : ∀ (a : Nat) (ha : a < 4096), a = pc.toNat ∨ a = pc.toNat + 1 → memory[a] = other[a]) :
    other.wordAt? pc = memory.wordAt? pc := by
  unfold Memory.wordAt?
  split
  · next hpc => rw [h pc.toNat (by omega) (.inl rfl), h (pc.toNat + 1) hpc (.inr rfl)]
  · rfl

theorem Memory.read_congr {memory other : Memory} {s : Span}
    (h : ∀ (a : Nat) (ha : a < 4096), s.start ≤ a → a < s.start + s.len →
      memory[a] = other[a]) : other.read s = memory.read s := by
  have hfits := s.fits
  unfold Memory.read
  congr 1
  funext k
  exact (h (s.start + k) (by omega) (by omega) (by omega)).symm

namespace Machine

/-- The machine with another memory. -/
def withMemory (m : Machine) (memory : Memory) : Machine := { m with memory := memory }

/-- The next step looks at the byte: it belongs to the word at the program counter, or to what the
instruction there takes from the index on. -/
def LooksAt (m : Machine) (a : Nat) : Prop :=
  a = m.pc.toNat ∨ a = m.pc.toNat + 1 ∨
    ∃ ins, m.current? = some ins ∧ m.index.toNat ≤ a ∧ a < m.index.toNat + ins.readLength

/-- The byte is among those that the instruction at the program counter stores from the index on. -/
def StoresAt (m : Machine) (a : Nat) : Prop :=
  ∃ ins, m.current? = some ins ∧ m.index.toNat ≤ a ∧ a < m.index.toNat + ins.storeLength

/-- What an instruction makes of a memory. -/
def written (m : Machine) (ins : Instruction) (memory : Memory) : Memory :=
  match m.refusal? ins with
  | some _ => memory
  | none => memory.write m.index.toNat (m.stored ins)

/-- What the next step makes of a memory. -/
def stepMemory (m : Machine) (memory : Memory) : Memory :=
  match m.current? with
  | none => memory
  | some ins => m.written ins memory

variable {supply : Supply} {m : Machine} {ins : Instruction} {other : Memory}

theorem bytesAtIndex_withMemory {len : Nat}
    (h : ∀ (a : Nat) (ha : a < 4096), m.index.toNat ≤ a → a < m.index.toNat + len →
      m.memory[a] = other[a]) :
    (m.withMemory other).bytesAtIndex len = m.bytesAtIndex len := by
  by_cases hfits : m.index.toNat + len ≤ 4096
  · have hfits' : (m.withMemory other).index.toNat + len ≤ 4096 := hfits
    rw [bytesAtIndex_of_fits hfits', bytesAtIndex_of_fits hfits]
    exact Memory.read_congr h
  · have hfits' : ¬ (m.withMemory other).index.toNat + len ≤ 4096 := hfits
    rw [bytesAtIndex, bytesAtIndex, Span.at?_of_not_fits hfits', Span.at?_of_not_fits hfits]

theorem next_withMemory
    (h : (m.withMemory other).bytesAtIndex ins.readLength = m.bytesAtIndex ins.readLength) :
    (m.withMemory other).next supply ins =
      (m.next supply ins).withMemory (other.write m.index.toNat (m.stored ins)) := by
  cases ins with
  | draw x y n =>
    have hdrawn : (m.withMemory other).drawn x y n = m.drawn x y n := congrArg
      (fun sprite => m.frame.draw sprite (m.reg x) (m.reg y)) h
    simp only [next, nextRegisters, nextFrame, hdrawn]
    rfl
  | loadRegisters x =>
    have hloaded : (m.withMemory other).nextRegisters supply (.loadRegisters x) =
        m.nextRegisters supply (.loadRegisters x) := congrArg (loaded m.registers) h
    simp only [next, hloaded]
    rfl
  | _ => rfl

/-- The same instruction does the same to another memory, and the same otherwise. -/
theorem execute_withMemory
    (h : (m.withMemory other).bytesAtIndex ins.readLength = m.bytesAtIndex ins.readLength) :
    (m.withMemory other).execute supply ins =
      (m.execute supply ins).within (withMemory · (m.written ins other)) := by
  have hrefused : (m.withMemory other).refusal? ins = m.refusal? ins := by
    cases ins <;> rfl
  cases hr : m.refusal? ins with
  | some fault =>
    rw [execute_of_refusal (hrefused.trans hr), execute_of_refusal hr, written, hr]
    rfl
  | none =>
    rw [execute_eq (hrefused.trans hr), execute_eq hr, next_withMemory h, written, hr]
    rfl

/-- A step does to another memory, if that is alike where the step looks, what it does to the
machine's own, and the same otherwise. -/
theorem step_withMemory (h : ∀ (a : Nat) (ha : a < 4096), m.LooksAt a → m.memory[a] = other[a])
    (supply : Supply) :
    (m.withMemory other).step supply =
      (m.step supply).within (withMemory · (m.stepMemory other)) := by
  have hword : (m.withMemory other).memory.wordAt? (m.withMemory other).pc =
      m.memory.wordAt? m.pc :=
    Memory.wordAt?_congr fun a ha hpc => h a ha (hpc.elim .inl fun hpc => .inr (.inl hpc))
  cases hw : m.memory.wordAt? m.pc with
  | error fault =>
    have hnone : m.current? = none := by rw [current?, hw]
    rw [step, hword, hw, step, hw, stepMemory, hnone]
    rfl
  | ok word =>
    cases hd : Instruction.decode word with
    | error fault =>
      have hnone : m.current? = none := by simp only [current?, hw, hd]
      rw [step_of_fetch (hword.trans hw), step_of_fetch hw, perform_of_unknown hd,
        perform_of_unknown hd, stepMemory, hnone]
      rfl
    | ok ins =>
      have hcurrent := current?_of_decode hw hd
      have hbytes : (m.withMemory other).bytesAtIndex ins.readLength =
          m.bytesAtIndex ins.readLength :=
        bytesAtIndex_withMemory fun a ha hle hlt =>
          h a ha (.inr (.inr ⟨ins, hcurrent, hle, hlt⟩))
      have hstep : m.stepMemory other = m.written ins other := by rw [stepMemory, hcurrent]
      rw [step_of_fetch (hword.trans hw), step_of_fetch hw, perform_of_decode hd,
        perform_of_decode hd, execute_withMemory hbytes, hstep]
      let noted := (m.execute supply ins).after [.executing word ins m.registers m.index m.pc]
      let count (_ : Unit) (stepped : Machine) : Outcome Machine Unit := .done () stepped.countDown
      show (noted.within (withMemory · (m.written ins other))).andThen count =
        (noted.andThen count).within (withMemory · (m.written ins other))
      exact Outcome.andThen_within noted _ fun _ _ => rfl

theorem memory_step (supply : Supply) (m : Machine) :
    (m.step supply).state.memory = m.stepMemory m.memory :=
  congrArg (fun o => o.state.memory) (step_withMemory (fun _ _ _ => rfl) supply)

theorem stepMemory_of_error {fault : Fault} (h : (m.step supply).result = .error fault)
    (memory : Memory) : m.stepMemory memory = memory := by
  unfold stepMemory written
  split
  · rfl
  · next ins hcurrent =>
    rw [← stepRefusal?_of_current hcurrent, stepRefusal_of_error h]

theorem stepMemory_of_ok (h : (m.step supply).result = .ok ()) (hi : m.current? = some ins)
    (memory : Memory) :
    m.stepMemory memory = memory.write m.index.toNat (m.stored ins) := by
  rw [stepMemory, hi]
  simp only [written, accepted_of_step_ok h hi]

theorem getElem_stepMemory_congr {memory : Memory} {a : Nat} (ha : a < 4096)
    (h : memory[a] = other[a]) : (m.stepMemory memory)[a] = (m.stepMemory other)[a] := by
  unfold stepMemory written
  split
  · exact h
  · split
    · exact h
    · rw [Memory.getElem_write, Memory.getElem_write, h]

theorem getElem_stepMemory_of_not_stores {a : Nat} (ha : a < 4096) (h : ¬ m.StoresAt a)
    (memory : Memory) : (m.stepMemory memory)[a] = memory[a] := by
  unfold stepMemory written
  split
  · rfl
  · next ins hcurrent =>
    split
    · rfl
    · exact getElem_write_stored_outside memory ha fun hin => h ⟨ins, hcurrent, hin⟩

theorem fits_of_stores (hr : m.refusal? ins = none) (h : 0 < ins.storeLength) :
    m.index.toNat + ins.storeLength ≤ 4096 := by
  cases ins with
  | storeDecimal | storeRegisters => exact fits_of_reach hr
  | _ => contradiction

/-- What a step that succeeds stores does not depend on the memory that it stores it into. -/
theorem getElem_stepMemory_of_stores (h : (m.step supply).result = .ok ())
    (hi : m.current? = some ins) {k : Nat} (hk : k < ins.storeLength)
    (hin : m.index.toNat + k < 4096) (memory : Memory) :
    some (m.stepMemory memory)[m.index.toNat + k] = (m.stored ins)[k]? := by
  have hlen : k < (m.stored ins).length := by rwa [length_stored]
  rw [stepMemory_of_ok h hi, ← Vector.getElem?_eq_getElem hin,
    Memory.getElem?_write_inside memory hlen hin]

/-- What the steps of two machines have in common that differ in their memories. -/
structure StepsAlike (supply : Supply) (m n : Machine) : Prop where
  result : (n.step supply).result = (m.step supply).result
  /-- The machines differ in their memories only, also afterwards. -/
  apart : (n.step supply).state = (m.step supply).state.withMemory (n.step supply).state.memory
  log : (n.step supply).log = (m.step supply).log
  agreement : ∀ (a : Nat) (ha : a < 4096), m.memory[a] = n.memory[a] →
    (m.step supply).state.memory[a] = (n.step supply).state.memory[a]
  outside : ∀ (a : Nat) (ha : a < 4096), ¬ m.StoresAt a →
    (m.step supply).state.memory[a] = m.memory[a] ∧
      (n.step supply).state.memory[a] = n.memory[a]
  /-- The bytes that are stored all exist, and both memories get them from the registers. -/
  inside : (m.step supply).result = .ok () → ∀ ins k, m.current? = some ins →
    k < ins.storeLength → ∃ h : m.index.toNat + k < 4096,
      some (m.step supply).state.memory[m.index.toNat + k] = (m.stored ins)[k]? ∧
        some (n.step supply).state.memory[m.index.toNat + k] = (m.stored ins)[k]?
  failed : ∀ fault, (m.step supply).result = .error fault →
    (m.step supply).state.memory = m.memory ∧ (n.step supply).state.memory = n.memory

/-- Two machines that differ in their memories only, and not where the next step looks, step
alike. -/
theorem step_local (supply : Supply) (m n : Machine) (hn : n = m.withMemory n.memory)
    (hlook : ∀ (a : Nat) (ha : a < 4096), m.LooksAt a → m.memory[a] = n.memory[a]) :
    m.StepsAlike supply n := by
  have hstep : n.step supply =
      (m.step supply).within (withMemory · (m.stepMemory n.memory)) :=
    (congrArg (step supply) hn).trans (step_withMemory hlook supply)
  have hown : (m.step supply).state.memory = m.stepMemory m.memory := memory_step supply m
  have hother : (n.step supply).state.memory = m.stepMemory n.memory :=
    congrArg (fun o => o.state.memory) hstep
  constructor
  case result => rw [hstep]; rfl
  case apart => rw [hother, hstep]; rfl
  case log => rw [hstep]; rfl
  case agreement =>
    intro a ha h
    simp only [hown, hother]
    exact getElem_stepMemory_congr ha h
  case outside =>
    intro a ha h
    simp only [hown, hother]
    exact ⟨getElem_stepMemory_of_not_stores ha h _, getElem_stepMemory_of_not_stores ha h _⟩
  case inside =>
    intro hok ins k hi hk
    have hfits := fits_of_stores (accepted_of_step_ok hok hi) (Nat.zero_lt_of_lt hk)
    refine ⟨by omega, ?_⟩
    simp only [hown, hother]
    exact ⟨getElem_stepMemory_of_stores hok hi hk _ _, getElem_stepMemory_of_stores hok hi hk _ _⟩
  case failed =>
    intro fault h
    rw [hown, hother]
    exact ⟨stepMemory_of_error h _, stepMemory_of_error h _⟩

/-- V0 and V1 are loaded from the first bytes of memory, and the byte behind them differs. -/
theorem step_local_load :
    let supply : Supply := ⟨fun _ => 0, Supply.heldKey⟩
    let m := (initial.install [0xF1, 0x65]).state
    let n := m.withMemory (m.memory.set 2 0xAA)
    m.memory[2] ≠ n.memory[2] ∧ m.StepsAlike supply n := by
  intro supply m n
  have hdiffers : m.memory[2] ≠ n.memory[2] := by decide +kernel
  have hcurrent : m.current? = some (.loadRegisters 1) ∧ m.pc.toNat = 0x200 ∧
      m.index.toNat = 0 := by decide +kernel
  obtain ⟨hins, hpc, hindex⟩ := hcurrent
  refine ⟨hdiffers, step_local supply m n rfl fun a ha hlook => ?_⟩
  have hne : 2 ≠ a := by
    rcases hlook with h | h | ⟨ins, hi, -, hlt⟩
    · omega
    · omega
    · obtain rfl := Option.some.inj (hins.symm.trans hi)
      have hlen : (Instruction.loadRegisters 1).readLength = 2 := rfl
      omega
  exact (Vector.getElem_set_ne (by decide) ha hne).symm

end Machine
end Chip8
