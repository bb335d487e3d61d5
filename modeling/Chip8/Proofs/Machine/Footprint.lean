import Chip8.Proofs.Machine.Parts

/-!
# What an instruction cannot touch

Every instruction has a footprint: the bytes it stores, its target registers, and the few other
parts that it is there to change. `Confined` lists for each part of the machine who may change it,
and `execute_confined` says that an instruction that succeeds stays within that. What it puts into
its footprint is said by the tables of `next` and not here.
-/
namespace Chip8

namespace Instruction

/-- The registers that the instruction may change. -/
def targets : Instruction → List Register
  | loadByte x _ | addByte x _ | copy x _ | or x _ | and x _ | xor x _ | random x _ | readDelay x
  | awaitKey x => [x]
  | add x _ | subtract x _ | shiftRight x | subtractFrom x _ | shiftLeft x => [x, 0xF]
  | draw _ _ _ => [0xF]
  | loadRegisters x => (List.finRange 16).filter (· ≤ x)
  | _ => []

def setsIndex : Instruction → Bool
  | loadIndex _ | addIndex _ | loadGlyph _ => true
  | _ => false

end Instruction

namespace CallStack

variable {s t : CallStack} {addr : Word}

/-- A call writes one slot, the one above the depth. -/
theorem slots_of_push? (h : s.push? addr = some t) {slot : Nat} (hs : slot < 16)
    (hne : slot ≠ s.depth + 1) : t.slots[slot] = s.slots[slot] := by
  unfold push? at h
  split at h
  · next hd =>
    obtain rfl := Option.some.inj h
    exact Vector.getElem_set_ne hd hs (Ne.symm hne)
  · contradiction

theorem slots_of_pop? (h : s.pop? = some (addr, t)) : t.slots = s.slots := by
  unfold pop? at h
  split at h
  · contradiction
  · obtain ⟨-, rfl⟩ := Prod.mk.inj (Option.some.inj h)
    rfl

end CallStack

namespace Machine

/-- What may be different in a machine `after` an instruction. -/
structure Confined (supply : Supply) (m : Machine) (ins : Instruction) (after : Machine) :
    Prop where
  memory : ∀ (a : Nat) (ha : a < 4096),
    ¬ (m.index.toNat ≤ a ∧ a < m.index.toNat + ins.storeLength) →
      after.memory[a] = m.memory[a]
  registers : ∀ x, x ∉ ins.targets → after.reg x = m.reg x
  index : ins.setsIndex = false → after.index = m.index
  depth : ins ≠ .ret → (∀ addr, ins ≠ .call addr) → after.calls.depth = m.calls.depth
  slots : ∀ (slot : Nat) (hs : slot < 16),
    ((∃ addr, ins = .call addr) → slot ≠ m.calls.depth + 1) →
      after.calls.slots[slot] = m.calls.slots[slot]
  timers : ∀ t, ins.setsTimer? t = none → after.timer t = m.timer t
  frame : ins.draws = false → after.frame = m.frame
  /-- The requests that were pending stay in front. -/
  pending : after.pendingRedraws = m.pendingRedraws ∨
    ins.draws = true ∧ after.pendingRedraws = m.pendingRedraws + 1
  keypad : after.keypad = m.keypad
  /-- One word on, unless the instruction says where to go on, skips or waits. -/
  pc : after.pc = m.nextPc supply ins
  bytesAsked : (∀ x kk, ins ≠ .random x kk) → after.bytesAsked = m.bytesAsked
  keysAsked : (∀ x, ins ≠ .awaitKey x) → after.keysAsked = m.keysAsked

variable {supply : Supply} {m : Machine} {ins : Instruction}

theorem length_stored (m : Machine) (ins : Instruction) :
    (m.stored ins).length = ins.storeLength := by
  cases ins with
  | storeRegisters x => exact length_regsTo m x
  | _ => rfl

theorem reg_setFlagged_of_ne (m : Machine) {x y : Register} (outcome : UInt8 × Bool)
    (h : y ∉ [x, 0xF]) : (m.setFlagged x outcome).reg y = m.reg y := by
  have hx : y ≠ x := List.ne_of_not_mem_cons h
  have hflag : y ≠ 0xF := List.ne_of_not_mem_cons (List.not_mem_of_not_mem_cons h)
  exact (reg_setReg_of_ne _ _ hx).trans (reg_setReg_of_ne _ _ hflag)

theorem length_bytesAtIndex_le (m : Machine) (len : Nat) :
    (m.bytesAtIndex len).length ≤ len := by
  rw [bytesAtIndex, Span.at?]
  split
  · exact Nat.zero_le len
  · next span hspan =>
    split at hspan
    · obtain rfl := Except.ok.inj hspan
      exact Nat.le_of_eq (Memory.length_read _ _)
    · contradiction

/-- Loading does not reach the registers behind the last byte. -/
theorem get_loaded_of_le (registers : Registers) {bytes : List UInt8} {y : Register}
    (h : bytes.length ≤ y) : (loaded registers bytes).get y = registers.get y := by
  rw [get_loaded, List.getElem?_eq_none h, Option.getD_none]

theorem reg_next_of_not_target {y : Register} (h : y ∉ ins.targets) :
    (m.next supply ins).reg y = m.reg y := by
  cases ins with
  | loadByte | addByte | copy | or | and | xor | random | readDelay | draw =>
    exact reg_setReg_of_ne m _ (List.ne_of_not_mem_cons h)
  | add | subtract | shiftRight | subtractFrom | shiftLeft => exact reg_setFlagged_of_ne m _ h
  | awaitKey x =>
    rw [reg, next, nextRegisters]
    cases supply.awaitedKey m.keysAsked m.keypad with
    | none => rfl
    | some key => exact reg_setReg_of_ne m key (List.ne_of_not_mem_cons h)
  | loadRegisters x =>
    have hlt : x < y := by
      simpa [Instruction.targets] using h
    have hlen : (m.bytesAtIndex (x + 1)).length ≤ y := Nat.le_trans (length_bytesAtIndex_le m _) hlt
    exact get_loaded_of_le m.registers hlen
  | _ => rfl

/-- Storing leaves the bytes that are not stored alone, whatever the memory. -/
theorem getElem_write_stored_outside (memory : Memory) {a : Nat} (ha : a < 4096)
    (h : ¬ (m.index.toNat ≤ a ∧ a < m.index.toNat + ins.storeLength)) :
    (memory.write m.index.toNat (m.stored ins))[a] = memory[a] := by
  rw [← length_stored m ins] at h
  exact Memory.getElem_write_outside memory ha h

theorem slots_next {slot : Nat} (hs : slot < 16)
    (h : (∃ addr, ins = .call addr) → slot ≠ m.calls.depth + 1) :
    (m.next supply ins).calls.slots[slot] = m.calls.slots[slot] := by
  cases ins with
  | call addr =>
    rw [next, nextCalls_call]
    cases hp : m.calls.push? m.pc with
    | none => rfl
    | some calls => exact CallStack.slots_of_push? hp hs (h ⟨addr, rfl⟩)
  | ret =>
    rw [next, nextCalls_ret]
    cases hp : m.calls.pop? with
    | none => rfl
    | some top => simp only [Option.elim_some, CallStack.slots_of_pop? hp]
  | _ => rfl

theorem pendingRedraws_next (supply : Supply) (m : Machine) (ins : Instruction) :
    (m.next supply ins).pendingRedraws = m.pendingRedraws ∨
      ins.draws = true ∧ (m.next supply ins).pendingRedraws = m.pendingRedraws + 1 := by
  simp only [next, nextPending]
  split
  · next hd =>
    split
    · exact .inr ⟨hd, rfl⟩
    · exact .inl rfl
  · exact .inl rfl

theorem confined_next (supply : Supply) (m : Machine) (ins : Instruction) :
    m.Confined supply ins (m.next supply ins) where
  memory := fun _ ha h => getElem_write_stored_outside m.memory ha h
  registers := fun _ h => reg_next_of_not_target h
  index := fun h => by
    cases ins with
    | loadIndex | addIndex | loadGlyph => contradiction
    | _ => rfl
  depth := fun hret hcall => by
    cases ins with
    | ret => contradiction
    | call addr => exact absurd rfl (hcall addr)
    | _ => rfl
  slots := fun _ hs h => slots_next hs h
  timers := fun t h => by cases t <;> simp only [timer, next, nextTimer, h]
  frame := fun h => by
    cases ins with
    | clear | draw => contradiction
    | _ => rfl
  pending := pendingRedraws_next supply m ins
  keypad := rfl
  pc := rfl
  bytesAsked := fun h => by
    cases ins with
    | random x kk => exact absurd rfl (h x kk)
    | _ => rfl
  keysAsked := fun h => by
    cases ins with
    | awaitKey x => exact absurd rfl (h x)
    | _ => rfl

/-- An instruction that succeeds changes nothing outside of its footprint. -/
theorem execute_confined (supply : Supply) (m : Machine) (ins : Instruction)
    (h : (m.execute supply ins).result = .ok ()) :
    m.Confined supply ins (m.execute supply ins).state := by
  rw [execute_eq (accepted_of_ok h)]
  exact confined_next supply m ins

/-- V0 to V2 are stored up to the last byte of memory. -/
theorem execute_confined_last_byte :
    let supply : Supply := ⟨fun _ => 0, Supply.heldKey⟩
    let m := { initial with index := 0xFFD }
    (m.execute supply (.storeRegisters 2)).result = .ok () ∧
      m.Confined supply (.storeRegisters 2) (m.execute supply (.storeRegisters 2)).state := by
  intro supply m
  have hok : (m.execute supply (.storeRegisters 2)).result = .ok () := rfl
  exact ⟨hok, execute_confined supply m (.storeRegisters 2) hok⟩

end Machine
end Chip8
