import Chip8.Proofs.Machine.Footprint

/-!
# Registers kept in memory

V0 to Vx can be stored from the index on and loaded from there later, whatever is carried out in
between, as long as it stores nothing there and the index comes back. Neither of the two moves the
index, so loading and storing at once changes no byte. `Order` says in which ways an instruction can
be carried out; what somebody else does to the machine in between is not covered.
-/
namespace Chip8

theorem Memory.write_of_present {memory : Memory} {start : Nat} {bytes : List UInt8}
    (h : ∀ k < bytes.length, memory[start + k]? = bytes[k]?) :
    memory.write start bytes = memory := by
  apply Vector.ext
  intro a ha
  by_cases hin : start ≤ a ∧ a < start + bytes.length
  · obtain ⟨k, rfl⟩ := Nat.exists_eq_add_of_le hin.1
    have hk : k < bytes.length := by omega
    apply Option.some.inj
    rw [← Vector.getElem?_eq_getElem, ← Vector.getElem?_eq_getElem,
      getElem?_write_inside memory hk ha, h k hk]
  · exact getElem_write_outside memory ha hin

/-- A way to have an instruction carried out: as it is, as a word, or by a step, which finds the
word at the program counter and also counts the timers down. -/
inductive Order where
  | instruction (ins : Instruction)
  | word (word : Word)
  | step
  deriving DecidableEq, Repr

namespace Machine

/-- The instruction that is to be carried out, if there is one. -/
def ordered? (m : Machine) : Order → Option Instruction
  | .instruction ins => some ins
  | .word word => (Instruction.decode word).toOption
  | .step => m.current?

def obey (supply : Supply) (m : Machine) : Order → Outcome Machine Unit
  | .instruction ins => m.execute supply ins
  | .word word => m.perform supply word
  | .step => m.step supply

/-- The machine after some orders, the first of the list first. -/
def obeyAll (supply : Supply) : Machine → List Order → Machine
  | m, [] => m
  | m, order :: orders => obeyAll supply (m.obey supply order).state orders

/-- The order stores into none of the `len` addresses from `start` on. -/
def SparedBy (m : Machine) (start len : Nat) (order : Order) : Prop :=
  ∀ ins ∈ m.ordered? order, ∀ k < ins.storeLength,
    ¬ (start ≤ m.index.toNat + k ∧ m.index.toNat + k < start + len)

instance (m : Machine) (start len : Nat) (order : Order) : Decidable (m.SparedBy start len order) :=
  inferInstanceAs (Decidable (∀ ins ∈ m.ordered? order, ∀ k < ins.storeLength,
    ¬ (start ≤ m.index.toNat + k ∧ m.index.toNat + k < start + len)))

/-- The orders all succeed, and none of them stores into the `len` addresses from `start` on. -/
def SparedByAll (supply : Supply) (start len : Nat) : Machine → List Order → Prop
  | _, [] => True
  | m, order :: orders => (m.obey supply order).result = .ok () ∧ m.SparedBy start len order ∧
      SparedByAll supply start len (m.obey supply order).state orders

instance (result : Except Fault Unit) : Decidable (result = .ok ()) :=
  match result with
  | .ok () => isTrue rfl
  | .error _ => isFalse nofun

instance decidableSparedByAll (supply : Supply) (start len : Nat) : (m : Machine) →
    (orders : List Order) → Decidable (m.SparedByAll supply start len orders)
  | _, [] => isTrue trivial
  | m, order :: orders =>
    have := decidableSparedByAll supply start len (m.obey supply order).state orders
    inferInstanceAs (Decidable ((m.obey supply order).result = .ok () ∧
      m.SparedBy start len order ∧
        SparedByAll supply start len (m.obey supply order).state orders))

variable {supply : Supply} {m : Machine} {order : Order} {orders : List Order} {ins : Instruction}
  {x y : Register} {start len : Nat}

/-- In whichever way an accepted instruction is carried out, it leaves the same in memory, in the
index and in the registers. -/
theorem obey_of_accepted (hi : m.ordered? order = some ins) (hr : m.refusal? ins = none)
    (supply : Supply) :
    (m.obey supply order).result = .ok () ∧
      (m.obey supply order).state.memory = (m.next supply ins).memory ∧
      (m.obey supply order).state.index = (m.next supply ins).index ∧
      ∀ y, (m.obey supply order).state.reg y = (m.next supply ins).reg y := by
  cases order with
  | instruction given =>
    obtain rfl := Option.some.inj hi
    rw [obey, execute_eq hr]
    exact ⟨rfl, rfl, rfl, fun _ => rfl⟩
  | word word =>
    cases hd : Instruction.decode word with
    | error fault =>
      rw [ordered?, hd] at hi
      contradiction
    | ok decoded =>
      rw [ordered?, hd] at hi
      obtain rfl := Option.some.inj hi
      rw [obey, perform_of_decode hd, execute_eq hr]
      exact ⟨rfl, rfl, rfl, fun _ => rfl⟩
  | step =>
    have hok : (m.step supply).result = .ok () := step_ok_of_accepted hi hr
    obtain ⟨stepped, hcurrent, hstate⟩ := step_state_of_ok hok
    obtain rfl := Option.some.inj (hcurrent.symm.trans hi)
    rw [obey, hstate]
    exact ⟨hok, rfl, rfl, fun _ => rfl⟩

theorem accepted_of_obeyed (h : (m.obey supply order).result = .ok ()) :
    ∃ ins, m.ordered? order = some ins ∧ m.refusal? ins = none := by
  cases order with
  | instruction ins => exact ⟨ins, rfl, accepted_of_ok h⟩
  | word word =>
    cases hd : Instruction.decode word with
    | error fault =>
      rw [obey, perform_of_unknown hd] at h
      contradiction
    | ok ins =>
      rw [obey, perform_of_decode hd] at h
      exact ⟨ins, by rw [ordered?, hd]; rfl, accepted_of_ok h⟩
  | step =>
    obtain ⟨ins, hi, -⟩ := step_state_of_ok h
    exact ⟨ins, hi, accepted_of_step_ok h hi⟩

theorem getElem_memory_obey {a : Nat} (ha : a < 4096) (h : (m.obey supply order).result = .ok ())
    (hspared : m.SparedBy start len order) (hin : start ≤ a ∧ a < start + len) :
    (m.obey supply order).state.memory[a] = m.memory[a] := by
  obtain ⟨ins, hi, hr⟩ := accepted_of_obeyed h
  obtain ⟨-, hmemory, -⟩ := obey_of_accepted hi hr supply
  simp only [hmemory]
  have houtside : ¬ (m.index.toNat ≤ a ∧ a < m.index.toNat + ins.storeLength) := by
    intro hstored
    obtain ⟨k, rfl⟩ := Nat.exists_eq_add_of_le hstored.1
    exact hspared ins hi k (by omega) hin
  exact getElem_write_stored_outside m.memory ha houtside

theorem getElem_memory_obeyAll {a : Nat} (ha : a < 4096)
    (hspared : m.SparedByAll supply start len orders) (hin : start ≤ a ∧ a < start + len) :
    (m.obeyAll supply orders).memory[a] = m.memory[a] := by
  induction orders generalizing m with
  | nil => rfl
  | cons order orders ih =>
    obtain ⟨hok, hfirst, hothers⟩ := hspared
    exact (ih hothers).trans (getElem_memory_obey ha hok hfirst hin)

theorem getElem?_regsTo (m : Machine) (hy : y ≤ x) : (m.regsTo x)[y.val]? = some (m.reg y) := by
  have hlt : y.val < x.val + 1 := Nat.lt_succ_of_le hy
  rw [regsTo, List.getElem?_take_of_lt hlt, Vector.getElem?_toList]
  exact Vector.getElem?_eq_getElem y.isLt

/-- Storing puts each register where it belongs. -/
theorem getElem?_memory_next_storeRegisters (hfits : m.index.toNat + (x + 1) ≤ 4096) (hy : y ≤ x) :
    (m.next supply (.storeRegisters x)).memory[m.index.toNat + y]? = some (m.reg y) := by
  have hle : y.val ≤ x.val := hy
  have hlength : y.val < (m.regsTo x).length := by
    rw [length_regsTo]
    omega
  rw [← getElem?_regsTo m hy]
  exact Memory.getElem?_write_inside m.memory hlength (by omega)

/-- Loading takes each register from where storing puts it. -/
theorem reg_next_loadRegisters (supply : Supply) (hfits : m.index.toNat + (x + 1) ≤ 4096)
    (hy : y ≤ x) :
    m.memory[m.index.toNat + y]? = some ((m.next supply (.loadRegisters x)).reg y) := by
  have hlt : y.val < x.val + 1 := Nat.lt_succ_of_le hy
  have hin : m.index.toNat + y.val < 4096 := by omega
  have hreg : (m.next supply (.loadRegisters x)).reg y =
      ((m.bytesAtIndex (x + 1))[y.val]?).getD (m.reg y) := get_loaded _ _ y
  rw [hreg, bytesAtIndex_of_fits hfits, Memory.getElem?_read]
  show _ = some ((if y.val < x.val + 1 then m.memory[m.index.toNat + y.val]? else none).getD _)
  rw [if_pos hlt, Vector.getElem?_eq_getElem hin, Option.getD_some]

theorem reg_next_loadRegisters_of_gt (hy : x < y) :
    (m.next supply (.loadRegisters x)).reg y = m.reg y := by
  refine reg_next_of_not_target fun hmem => ?_
  have hle : y ≤ x := of_decide_eq_true (List.mem_filter.mp hmem).2
  exact Fin.not_lt.mpr hle hy

/-- What is left when V0 to Vx, which were those of `m`, are loaded into the machine `later`. -/
structure Restored (m later loaded : Machine) (x : Register) : Prop where
  restored : ∀ y ≤ x, loaded.reg y = m.reg y
  others : ∀ y, x < y → loaded.reg y = later.reg y
  index : loaded.index = later.index
  memory : loaded.memory = later.memory

/-- What can be relied on when V0 to Vx fit behind the index. -/
structure KeepsRegisters (supply : Supply) (m : Machine) (x : Register) : Prop where
  /-- Stored registers are loaded again, if nothing is stored there in between and the index comes
  back. -/
  stored : ∀ save, m.ordered? save = some (.storeRegisters x) →
    (m.obey supply save).result = .ok () ∧
      ∀ meanwhile later load, later = (m.obey supply save).state.obeyAll supply meanwhile →
        (m.obey supply save).state.SparedByAll supply m.index.toNat (x + 1) meanwhile →
        later.index = m.index → later.ordered? load = some (.loadRegisters x) →
          (later.obey supply load).result = .ok () ∧
            Restored m later (later.obey supply load).state x
  /-- Loaded registers are stored again without a byte being changed. -/
  loaded : ∀ load, m.ordered? load = some (.loadRegisters x) →
    (m.obey supply load).result = .ok () ∧
      ∀ save, (m.obey supply load).state.ordered? save = some (.storeRegisters x) →
        ((m.obey supply load).state.obey supply save).result = .ok () ∧
          ((m.obey supply load).state.obey supply save).state.memory = m.memory

/-- Registers that are what the bytes at the index are do not change them when they are stored. -/
theorem memory_next_storeRegisters
    (hbytes : ∀ y ≤ x, m.memory[m.index.toNat + y.val]? = some (m.reg y)) :
    (m.next supply (.storeRegisters x)).memory = m.memory := by
  show m.memory.write m.index.toNat (m.regsTo x) = m.memory
  refine Memory.write_of_present fun k hk => ?_
  rw [length_regsTo] at hk
  have hk16 : k < 16 := Nat.lt_of_lt_of_le hk x.isLt
  have hle : (⟨k, hk16⟩ : Register) ≤ x := Nat.le_of_lt_succ hk
  exact (hbytes ⟨k, hk16⟩ hle).trans (getElem?_regsTo m hle).symm

/-- Loading finds its bytes and gives them to the registers. -/
theorem restored_of_bytes {later : Machine} {load : Order}
    (hload : later.ordered? load = some (.loadRegisters x))
    (hfits : later.index.toNat + (x + 1) ≤ 4096)
    (hbytes : ∀ y ≤ x, later.memory[later.index.toNat + y.val]? = some (m.reg y)) :
    (later.obey supply load).result = .ok () ∧
      Restored m later (later.obey supply load).state x := by
  have haccepted : later.refusal? (.loadRegisters x) = none := if_pos hfits
  obtain ⟨hok, hmemory, hindex, hregs⟩ := obey_of_accepted hload haccepted supply
  refine ⟨hok, ⟨fun y hy => ?_, fun y hy => ?_, hindex, hmemory⟩⟩
  · have hloaded := reg_next_loadRegisters supply hfits hy
    rw [hregs]
    exact Option.some.inj (hloaded.symm.trans (hbytes y hy))
  · rw [hregs]
    exact reg_next_loadRegisters_of_gt hy

/-- V0 to Vx survive in memory if they fit there, in whatever way they are stored and loaded. -/
theorem registers_survive_in_memory (supply : Supply) (m : Machine) (x : Register)
    (hfits : m.index.toNat + (x + 1) ≤ 4096) : KeepsRegisters supply m x := by
  constructor
  case stored =>
    intro save hsave
    have haccepted : m.refusal? (.storeRegisters x) = none := if_pos hfits
    obtain ⟨hok, hmemory, -⟩ := obey_of_accepted hsave haccepted supply
    refine ⟨hok, fun meanwhile later load hlater hspared hindex hload => ?_⟩
    refine restored_of_bytes hload (by rwa [hindex]) fun y hy => ?_
    have hle : y.val ≤ x.val := hy
    have hin : m.index.toNat + y.val < 4096 := by omega
    have hkept : later.memory[m.index.toNat + y.val] =
        (m.obey supply save).state.memory[m.index.toNat + y.val] := by
      subst hlater
      exact getElem_memory_obeyAll hin hspared ⟨Nat.le_add_right _ _, by omega⟩
    rw [hindex, Vector.getElem?_eq_getElem hin, hkept, ← Vector.getElem?_eq_getElem, hmemory]
    exact getElem?_memory_next_storeRegisters hfits hy
  case loaded =>
    intro load hload
    have haccepted : m.refusal? (.loadRegisters x) = none := if_pos hfits
    obtain ⟨hok, hmemory, hindex, hregs⟩ := obey_of_accepted hload haccepted supply
    refine ⟨hok, fun save hsave => ?_⟩
    have haccepted' : (m.obey supply load).state.refusal? (.storeRegisters x) = none :=
      if_pos (by rw [hindex]; exact hfits)
    obtain ⟨hok', hstored, -⟩ := obey_of_accepted hsave haccepted' supply
    refine ⟨hok', hstored.trans ((memory_next_storeRegisters fun y hy => ?_).trans hmemory)⟩
    rw [hmemory, hindex, hregs]
    exact reg_next_loadRegisters supply hfits hy

/-- V0 to V2 in the last bytes of memory. In between V0 is changed, and the digits of V1 are stored
elsewhere. -/
theorem registers_survive_in_memory_last_byte :
    let supply : Supply := ⟨fun _ => 0, Supply.heldKey⟩
    let m := { initial with
      index := 0xFFD, registers := Vector.ofFn fun y => UInt8.ofNat y + 1 }
    let meanwhile : List Order := [.word 0x6007, .word 0xA300, .instruction (.storeDecimal 1),
      .word 0xAFFD]
    let later := (m.obey supply (.word 0xF255)).state.obeyAll supply meanwhile
    m.index.toNat + 3 ≤ 4096 ∧ later.reg 0 = 7 ∧
      Restored m later (later.obey supply (.word 0xF265)).state 2 := by
  intro supply m meanwhile later
  have hrun : m.ordered? (.word 0xF255) = some (.storeRegisters 2) ∧
      (m.obey supply (.word 0xF255)).state.SparedByAll supply m.index.toNat 3 meanwhile ∧
      later.index = m.index ∧ later.ordered? (.word 0xF265) = some (.loadRegisters 2) ∧
      later.reg 0 = 7 := by
    decide +kernel
  obtain ⟨hsave, hspared, hindex, hload, hchanged⟩ := hrun
  have hfits : m.index.toNat + 3 ≤ 4096 := by decide
  have hkept := ((registers_survive_in_memory supply m 2 hfits).stored (.word 0xF255) hsave).2
  exact ⟨hfits, hchanged, (hkept meanwhile later (.word 0xF265) rfl hspared hindex hload).2⟩

end Machine
end Chip8
