import Chip8.Proofs.Instruction.RoundTrip
import Chip8.Proofs.Machine.Keys
import Chip8.Proofs.Machine.Requests

/-!
# Waiting for a key

A program waits by carrying out one instruction again and again. While no key is down such a
step counts the timers down and does nothing else; the first step that finds a key down takes the
lowest one and goes on. The next word is given, not the way there, and the keys that are held answer
the request; no other supply is covered.
-/
namespace Chip8.Machine

variable {randomByte : Nat → UInt8} {m : Machine} {x : Register} {ops : List Operation}

/-- The machine after `n` steps in which it only waited. -/
def waitedFor (m : Machine) (n : Nat) : Machine :=
  { m with
    delay := UInt8.ofNat (m.delay.toNat - n), sound := UInt8.ofNat (m.sound.toNat - n)
    keysAsked := m.keysAsked + n }

theorem waitedFor_zero (m : Machine) : m.waitedFor 0 = m := by
  simp [waitedFor]

theorem waitedFor_waitedFor (m : Machine) (k n : Nat) :
    (m.waitedFor k).waitedFor n = m.waitedFor (k + n) := by
  have htimer : ∀ timer : UInt8,
      UInt8.ofNat ((UInt8.ofNat (timer.toNat - k)).toNat - n) =
        UInt8.ofNat (timer.toNat - (k + n)) := by
    intro timer
    have := timer.toNat_lt
    rw [UInt8.toNat_ofNat', Nat.mod_eq_of_lt (by omega), Nat.sub_sub]
  simp only [waitedFor, htimer, Nat.add_assoc]

theorem current?_of_awaitKey_word
    (h : m.memory.wordAt? m.pc = .ok (Instruction.withByte 0xF x 0x0A)) :
    m.current? = some (.awaitKey x) := by
  have hwellFormed : (Instruction.awaitKey x).WellFormed := trivial
  exact current?_of_decode h (Instruction.decode_encode hwellFormed 0)

/-- A step of a program that waits takes the lowest key that is down, or only waits. -/
theorem step_of_awaitKey_word (randomByte : Nat → UInt8)
    (h : m.memory.wordAt? m.pc = .ok (Instruction.withByte 0xF x 0x0A)) :
    (m.step ⟨randomByte, Supply.heldKey⟩).result = .ok () ∧
      (m.step ⟨randomByte, Supply.heldKey⟩).state =
        match m.keypad.lowest with
        | none => m.waitedFor 1
        | some key => { (m.waitedFor 1).setReg x key with pc := m.pc + 2 } := by
  have hcurrent := current?_of_awaitKey_word h
  have hok : (m.step ⟨randomByte, Supply.heldKey⟩).result = .ok () :=
    step_ok_of_accepted hcurrent rfl
  refine ⟨hok, ?_⟩
  rw [step_of_awaitKey hok hcurrent]
  show (match m.keypad.lowest with
    | none => _
    | some key => _ : Machine).countDown = _
  cases m.keypad.lowest <;> rfl

theorem lowest_eq_none_of_up (h : ∀ code, m.keypad.isDown code = false) :
    m.keypad.lowest = none :=
  Keypad.lowest_eq_none_iff.mpr fun code => by simp [h code]

theorem run_waiting
    (h : m.memory.wordAt? m.pc = .ok (Instruction.withByte 0xF x 0x0A))
    (hup : ∀ code, m.keypad.isDown code = false) (n : Nat) :
    m.run ⟨randomByte, Supply.heldKey⟩ (List.replicate n .step) = m.waitedFor n := by
  induction n generalizing m with
  | zero => exact (waitedFor_zero m).symm
  | succ n ih =>
    have hstep := (step_of_awaitKey_word randomByte h).2
    rw [lowest_eq_none_of_up hup] at hstep
    -- the machine that has waited once is before the same word, with the same keys
    have hrest := ih (m := m.waitedFor 1) h hup
    rw [List.replicate_succ, run, act, hstep, hrest, waitedFor_waitedFor, Nat.add_comm 1 n]

theorem waitedFor_withKeys_waitedFor (m : Machine) (n : Nat) (keypad : Keypad) :
    ((m.waitedFor n).withKeys keypad).waitedFor 1 = (m.waitedFor (n + 1)).withKeys keypad := by
  rw [← waitedFor_waitedFor]
  rfl

/-- What a step finds and does that comes after a wait and some presses and releases. -/
theorem step_after_wait {n : Nat} {later : Machine}
    (h : m.memory.wordAt? m.pc = .ok (Instruction.withByte 0xF x 0x0A))
    (hup : 0 < n → ∀ code, m.keypad.isDown code = false) (hops : ∀ op ∈ ops, op.onKeys = true)
    (hlater : later = (m.run ⟨randomByte, Supply.heldKey⟩ (List.replicate n .step)).run
      ⟨randomByte, Supply.heldKey⟩ ops) :
    (∀ code, later.keypad.isDown code = true ↔ m.HeldAfter ops code) ∧
      (later.step ⟨randomByte, Supply.heldKey⟩).result = .ok () ∧
      (later.step ⟨randomByte, Supply.heldKey⟩).state =
        match later.keypad.lowest with
        | none => { m.waitedFor (n + 1) with keypad := later.keypad }
        | some key => { (m.waitedFor (n + 1)).setReg x key with
            pc := m.pc + 2, keypad := later.keypad } := by
  have hwait : m.run ⟨randomByte, Supply.heldKey⟩ (List.replicate n .step) = m.waitedFor n := by
    cases n with
    | zero => exact (waitedFor_zero m).symm
    | succ n => exact run_waiting h (hup n.succ_pos) (n + 1)
  rw [hwait] at hlater
  have hstate : later = (m.waitedFor n).withKeys later.keypad := by
    rw [hlater]
    exact run_onKeys _ _ hops
  have hword : later.memory.wordAt? later.pc = .ok (Instruction.withByte 0xF x 0x0A) := by
    rw [hstate]
    exact h
  have hwaited : later.waitedFor 1 = (m.waitedFor (n + 1)).withKeys later.keypad :=
    (congrArg (waitedFor · 1) hstate).trans (waitedFor_withKeys_waitedFor m n later.keypad)
  have hpc : later.pc = m.pc := by
    rw [hstate]
    rfl
  obtain ⟨hok, hstep⟩ := step_of_awaitKey_word randomByte hword
  refine ⟨?held, hok, ?_⟩
  case held =>
    rw [hlater]
    exact isDown_run_iff _ (m.waitedFor n) ops
  rw [hstep, hwaited, hpc]
  rfl

/-- What a program that waits for a key does. -/
structure WaitsForKey (supply : Supply) (m : Machine) (x : Register) : Prop where
  /-- While no key is down every step succeeds, and nothing but the timers shows it. -/
  frozen : (∀ code, m.keypad.isDown code = false) → ∀ n,
    ((m.run supply (List.replicate n .step)).step supply).result = .ok () ∧
      m.run supply (List.replicate n .step) = m.waitedFor n
  /-- After that keys are pressed and released, and some are down in the end. -/
  woken : ∀ n ops later, (0 < n → ∀ code, m.keypad.isDown code = false) →
    (∀ op ∈ ops, op.onKeys = true) →
    later = (m.run supply (List.replicate n .step)).run supply ops →
    (∃ code, later.keypad.isDown code = true) →
    ∃ key, key.toNat ≤ 0xF ∧ m.HeldAfter ops key ∧ (∀ other, m.HeldAfter ops other → key ≤ other) ∧
      (later.step supply).result = .ok () ∧
      (later.step supply).state = { (m.waitedFor (n + 1)).setReg x key with
        pc := m.pc + 2, keypad := later.keypad }
  /-- Codes that name no key do not end the wait. -/
  unwoken : ∀ n ops later, (∀ code, m.keypad.isDown code = false) →
    (∀ op ∈ ops, op.onKeys = true) → (∀ code, .press code ∈ ops → 0xF < code.toNat) →
    later = (m.run supply (List.replicate n .step)).run supply ops →
    (later.step supply).result = .ok () ∧
      (later.step supply).state = { m.waitedFor (n + 1) with keypad := later.keypad }

/-- A program that waits for a key does nothing but wait while no key is down, for any number of
steps. When keys are pressed and released after that, the next step gives it the lowest of those
pressed since the last release, which names a key, and it goes on. -/
theorem waiting_freezes_program (randomByte : Nat → UInt8) (m : Machine) (x : Register)
    (h : m.memory.wordAt? m.pc = .ok (Instruction.withByte 0xF x 0x0A)) :
    WaitsForKey ⟨randomByte, Supply.heldKey⟩ m x := by
  constructor
  case frozen =>
    intro hup n
    rw [run_waiting h hup n]
    exact ⟨(step_of_awaitKey_word (m := m.waitedFor n) randomByte h).1, rfl⟩
  case woken =>
    intro n ops later hup hops hlater ⟨code, hdown⟩
    obtain ⟨hheld, hok, hstep⟩ := step_after_wait h hup hops hlater
    cases hlowest : later.keypad.lowest with
    | none => exact absurd hdown (Keypad.lowest_eq_none_iff.mp hlowest code)
    | some key =>
      obtain ⟨hkey, hleast⟩ := Keypad.lowest_eq_some_iff.mp hlowest
      rw [hlowest] at hstep
      exact ⟨key, Keypad.code_le_of_isDown hkey, (hheld key).mp hkey,
        fun other hother => hleast other ((hheld other).mpr hother), hok, hstep⟩
  case unwoken =>
    intro n ops later hup hops hnone hlater
    obtain ⟨hheld, hok, hstep⟩ := step_after_wait h (fun _ => hup) hops hlater
    have hlowest : later.keypad.lowest = none := by
      refine Keypad.lowest_eq_none_iff.mpr fun code hdown => ?_
      rcases (hheld code).mp hdown with ⟨hcode, earlier, rest, rfl, -⟩ | ⟨hbefore, -⟩
      · have habove := hnone code (List.mem_append_right _ List.mem_cons_self)
        omega
      · rw [hup code] at hbefore
        contradiction
    rw [hlowest] at hstep
    exact ⟨hok, hstep⟩

/-- A program that sets its delay timer to 9 and waits for a key for V1. After three more steps a
code that names no key comes, then a key that is released again, then two keys. -/
theorem waiting_freezes_program_two_keys :
    let supply : Supply := ⟨fun _ => 0, Supply.heldKey⟩
    let m := initial.run supply
      [.install [0x60, 0x09, 0xF0, 0x15, 0xF1, 0x0A], .step, .step]
    let ops := [.press 0x10, .press 2, .releaseKeys, .press 9, .press 4]
    let later := (m.run supply (List.replicate 3 .step)).run supply ops
    m.memory.wordAt? m.pc = .ok (Instruction.withByte 0xF 1 0x0A) ∧
      m.run supply (List.replicate 3 .step) = m.waitedFor 3 ∧ (m.waitedFor 3).delay = 5 ∧
      later.keypad.isDown 4 = true ∧
      (later.step supply).state = { (m.waitedFor 4).setReg 1 4 with
        pc := m.pc + 2, keypad := later.keypad } := by
  intro supply m ops later
  have hrun : (m.memory.wordAt? m.pc).toOption = some (Instruction.withByte 0xF 1 0x0A) ∧
      m.keypad = Keypad.released ∧ (m.waitedFor 3).delay = 5 ∧
      later.keypad.isDown 4 = true ∧ (later.step supply).state.reg 1 = 4 := by
    decide +kernel
  -- from here on it does not matter how the machine got there
  clear_value m
  obtain ⟨hfetched, hkeypad, hdelay, hdown, hreg⟩ := hrun
  have hword : m.memory.wordAt? m.pc = .ok (Instruction.withByte 0xF 1 0x0A) := by
    cases hw : m.memory.wordAt? m.pc with
    | error fault => rw [hw] at hfetched; contradiction
    | ok word => rw [hw] at hfetched; exact congrArg _ (Option.some.inj hfetched)
  have hup : ∀ code, m.keypad.isDown code = false := by
    intro code
    rw [hkeypad, Keypad.isDown_released]
  have hlaw := waiting_freezes_program (fun _ => 0) m 1 hword
  obtain ⟨key, -, -, -, -, hstate⟩ :=
    hlaw.woken 3 ops later (fun _ => hup) (by decide) rfl ⟨4, hdown⟩
  have hkey : key = 4 := by
    rw [← hreg, hstate]
    exact (reg_setReg_self m 1 key).symm
  rw [hkey] at hstate
  exact ⟨hword, (hlaw.frozen hup 3).2, hdelay, hdown, hstate⟩

end Chip8.Machine
