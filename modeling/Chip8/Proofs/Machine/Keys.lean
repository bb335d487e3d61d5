import Chip8.Proofs.Keypad.Held
import Chip8.Proofs.Machine.Effect

/-!
# Keys and the rest of the machine

No instruction changes the keypad, and only three look at it. Any other does the same whatever keys
are down, so a machine with other keys down steps alike as long as it stays away from those three:
`step_withKeys`. And which keys are down after some operations is read off the operations alone:
`isDown_run_iff`. What the three make of the keys is not said here.
-/
namespace Chip8

/-- Whether what the instruction does depends on the keys. -/
def Instruction.readsKeys : Instruction → Bool
  | skipIfHeld _ | skipUnlessHeld _ | awaitKey _ => true
  | _ => false

/-- Somebody presses a key, or all keys are released. -/
def Operation.onKeys : Operation → Bool
  | .press _ | .releaseKeys => true
  | _ => false

namespace Machine

/-- The machine with other keys down. -/
def withKeys (m : Machine) (keypad : Keypad) : Machine := { m with keypad := keypad }

variable {ins : Instruction}

theorem requestRedraw_withKeys (m : Machine) (keypad : Keypad) :
    (m.withKeys keypad).requestRedraw = m.requestRedraw.withKeys keypad := by
  unfold requestRedraw withKeys
  split <;> rfl

theorem takeRedraw?_withKeys (m : Machine) (keypad : Keypad) :
    (m.withKeys keypad).takeRedraw? = m.takeRedraw?.map (withKeys · keypad) := by
  unfold takeRedraw? withKeys
  dsimp only
  split <;> rfl

/-- How clearing and drawing end. -/
theorem redraw_withKeys (m : Machine) (keypad : Keypad) (log : List Notice) :
    (⟨.ok (), (m.withKeys keypad).requestRedraw.advance, log⟩ : Outcome Machine Unit) =
      (⟨.ok (), m.requestRedraw.advance, log⟩ : Outcome Machine Unit).within
        (withKeys · keypad) := by
  rw [requestRedraw_withKeys]
  rfl

theorem storeAtIndex_withKeys (m : Machine) (keypad : Keypad) (bytes : List UInt8) :
    (m.withKeys keypad).storeAtIndex bytes = (m.storeAtIndex bytes).within (withKeys · keypad) := by
  simp only [storeAtIndex, withKeys]
  cases Span.at? m.index bytes.length <;> rfl

theorem execute_withKeys (h : ins.readsKeys = false) (supply : Supply) (m : Machine)
    (keypad : Keypad) :
    (m.withKeys keypad).execute supply ins =
      (m.execute supply ins).within (withKeys · keypad) := by
  cases ins with
  | skipIfHeld x => contradiction
  | skipUnlessHeld x => contradiction
  | awaitKey x => contradiction
  | clear => exact redraw_withKeys { m with frame := Frame.blank } keypad m.redrawNotices
  | ret =>
    simp only [execute, ret, withKeys]
    cases m.calls.pop? <;> rfl
  | call addr =>
    simp only [execute, call, withKeys]
    cases m.calls.push? m.pc <;> rfl
  | draw x y n =>
    simp only [execute, draw, withKeys]
    cases Span.at? m.index n.toNat with
    | error fault => rfl
    | ok span =>
      let drawn := m.frame.draw (m.memory.read span) (m.reg x) (m.reg y)
      exact redraw_withKeys
        ({ m with frame := drawn.1 }.setReg 0xF (Arithmetic.flagByte drawn.2)) keypad
        m.redrawNotices
  | storeDecimal x => exact storeAtIndex_withKeys m keypad _
  | storeRegisters x => exact storeAtIndex_withKeys m keypad _
  | loadRegisters x =>
    simp only [execute, loadAtIndex, withKeys]
    cases Span.at? m.index (x + 1) <;> rfl
  | _ => rfl

/-- No instruction changes the keypad, whether it looks at it or not. -/
theorem keypad_execute (supply : Supply) (m : Machine) (ins : Instruction) :
    (m.execute supply ins).state.keypad = m.keypad := by
  cases h : ins.readsKeys with
  | false =>
    -- putting the keys in place that are there anyway changes nothing
    have hsame := congrArg (fun o => o.state.keypad) (execute_withKeys h supply m m.keypad)
    exact hsame
  | true =>
    cases ins with
    | skipIfHeld x => rfl
    | skipUnlessHeld x => rfl
    | awaitKey x =>
      rw [execute, awaitKey]
      split <;> rfl
    | _ => contradiction

theorem keypad_step (supply : Supply) (m : Machine) :
    (m.step supply).state.keypad = m.keypad := by
  rcases step_cases supply m with ⟨fault, log, -, hs⟩ | ⟨word, ins, -, -, -, hs⟩
  · rw [hs]
  · rw [hs]
    exact keypad_execute supply m ins

/-- Whether the next step looks at the keys. -/
def readsKeys (m : Machine) : Bool := m.current?.any Instruction.readsKeys

theorem step_withKeys {m : Machine} (h : m.readsKeys = false) (supply : Supply)
    (keypad : Keypad) :
    (m.withKeys keypad).step supply = (m.step supply).within (withKeys · keypad) := by
  cases hw : m.memory.wordAt? m.pc with
  | error fault =>
    have hw' : (m.withKeys keypad).memory.wordAt? (m.withKeys keypad).pc = .error fault := hw
    rw [step, hw', step, hw]
    rfl
  | ok word =>
    have hw' : (m.withKeys keypad).memory.wordAt? (m.withKeys keypad).pc = .ok word := hw
    cases hd : Instruction.decode word with
    | error fault =>
      rw [step_of_fetch hw', step_of_fetch hw, perform_of_unknown hd, perform_of_unknown hd]
      rfl
    | ok ins =>
      have hkeys : ins.readsKeys = false := by
        rw [readsKeys, current?_of_decode hw hd] at h
        exact h
      rw [step_of_fetch hw', step_of_fetch hw, perform_of_decode hd, perform_of_decode hd,
        execute_withKeys hkeys]
      let noted := (m.execute supply ins).after [.executing word ins m.registers m.index m.pc]
      let count (_ : Unit) (stepped : Machine) : Outcome Machine Unit := .done () stepped.countDown
      show (noted.within (withKeys · keypad)).andThen count =
        (noted.andThen count).within (withKeys · keypad)
      exact Outcome.andThen_within noted _ fun _ _ => rfl

section

variable {m : Machine} {code : UInt8} {op : Operation} {ops : List Operation}

/-- The key was pressed after the last release among the operations. If there is none, the keys that
were down before count as well. -/
def HeldAfter (m : Machine) (ops : List Operation) (code : UInt8) : Prop :=
  (code.toNat ≤ 0xF ∧ ∃ earlier later, ops = earlier ++ .press code :: later ∧
    .releaseKeys ∉ later) ∨ (m.keypad.isDown code = true ∧ .releaseKeys ∉ ops)

theorem isDown_act_iff (supply : Supply) (m : Machine) (op : Operation) (code : UInt8) :
    (m.act supply op).keypad.isDown code = true ↔
      (code.toNat ≤ 0xF ∧ op = .press code) ∨
        (m.keypad.isDown code = true ∧ op ≠ .releaseKeys) := by
  cases op with
  | press pressed =>
    show (m.keypad.press pressed).isDown code = true ↔ _
    rw [Keypad.isDown_press_iff]
    simp
  | releaseKeys =>
    show Keypad.released.isDown code = true ↔ _
    rw [Keypad.isDown_released]
    simp
  | step =>
    rw [act, keypad_step]
    simp
  | takeRedraw =>
    rw [act, takeRedraw_eq]
    simp
  | install program =>
    obtain ⟨memory, hinstall⟩ := m.install_state program
    rw [act, hinstall]
    simp

theorem heldAfter_nil : m.HeldAfter [] code ↔ m.keypad.isDown code = true := by
  simp [HeldAfter]

/-- The first operation can be seen as part of what was before the others. -/
theorem heldAfter_cons (supply : Supply) :
    m.HeldAfter (op :: ops) code ↔ (m.act supply op).HeldAfter ops code := by
  unfold HeldAfter
  rw [isDown_act_iff]
  constructor
  · rintro (⟨hcode, earlier, later, hsplit, hlater⟩ | ⟨hdown, hquiet⟩)
    · cases earlier with
      | nil =>
        obtain ⟨rfl, rfl⟩ := List.cons.inj hsplit
        exact .inr ⟨.inl ⟨hcode, rfl⟩, hlater⟩
      | cons first earlier =>
        obtain ⟨rfl, rfl⟩ := List.cons.inj hsplit
        exact .inl ⟨hcode, earlier, later, rfl, hlater⟩
    · exact .inr ⟨.inr ⟨hdown, Ne.symm (List.ne_of_not_mem_cons hquiet)⟩,
        List.not_mem_of_not_mem_cons hquiet⟩
  · rintro (⟨hcode, earlier, later, rfl, hlater⟩ | ⟨⟨hcode, rfl⟩ | ⟨hdown, hop⟩, hops⟩)
    · exact .inl ⟨hcode, op :: earlier, later, rfl, hlater⟩
    · exact .inl ⟨hcode, [], ops, rfl, hops⟩
    · exact .inr ⟨hdown, List.not_mem_cons_of_ne_of_not_mem (Ne.symm hop) hops⟩

theorem isDown_run_iff (supply : Supply) (m : Machine) (ops : List Operation) (code : UInt8) :
    (m.run supply ops).keypad.isDown code = true ↔ m.HeldAfter ops code := by
  induction ops generalizing m with
  | nil => exact heldAfter_nil.symm
  | cons op ops ih => rw [heldAfter_cons supply, run, ih]

/-- Pressing and releasing keys changes the keys and nothing else. -/
theorem run_onKeys (supply : Supply) (m : Machine) (h : ∀ op ∈ ops, op.onKeys = true) :
    m.run supply ops = m.withKeys (m.run supply ops).keypad := by
  induction ops generalizing m with
  | nil => rfl
  | cons op ops ih =>
    have hrest := ih (m.act supply op) fun other hother => h other (List.mem_cons_of_mem op hother)
    have hfirst : ∃ keypad, m.act supply op = m.withKeys keypad := by
      have hop := h op List.mem_cons_self
      cases op with
      | press pressed => exact ⟨m.keypad.press pressed, rfl⟩
      | releaseKeys => exact ⟨Keypad.released, rfl⟩
      | step | takeRedraw | install => contradiction
    obtain ⟨keypad, hfirst⟩ := hfirst
    rw [hfirst] at hrest
    rw [run, hfirst]
    exact hrest

end

end Machine
end Chip8
