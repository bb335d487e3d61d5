import Chip8.Proofs.Machine.Footprint

/-!
# Results and flags

The five operations with a flag, as arithmetic of natural numbers and integers, and what they leave
in the registers when Vx, Vy and VF are not three different ones: operands are read before anything
is written, and a result in VF takes the place of the flag. Likewise the decimal digits of a
register. Instructions without a flag are not covered.
-/
namespace Chip8

namespace Arithmetic

/-- A flag as a number. -/
def flagNat (flag : Bool) : Nat := (flagByte flag).toNat

theorem flagNat_le (flag : Bool) : flagNat flag ≤ 1 := by cases flag <;> decide

theorem flagNat_eq_one_iff (flag : Bool) : flagNat flag = 1 ↔ flag = true := by
  cases flag <;> decide

theorem flagNat_decide (p : Prop) [Decidable p] : flagNat (decide p) = if p then 1 else 0 := by
  by_cases h : p
  · simp [h, flagNat, flagByte]
  · simp [h, flagNat, flagByte]

variable (a b : UInt8)

theorem toNat_add : (add a b).1.toNat + 256 * flagNat (add a b).2 = a.toNat + b.toNat := by
  have ha := a.toNat_lt
  have hb := b.toNat_lt
  simp only [add, flagNat_decide, UInt8.toNat_add]
  split <;> omega

theorem toNat_subtract : ((subtract a b).1.toNat : Int) = ((a.toNat : Int) - b.toNat) % 256 := by
  have ha := a.toNat_lt
  have hb := b.toNat_lt
  simp only [subtract, UInt8.toNat_sub]
  omega

theorem flag_subtract : flagNat (subtract a b).2 = 1 ↔ b.toNat < a.toNat := by
  rw [flagNat_eq_one_iff, subtract, decide_eq_true_iff]

theorem toNat_halve : 2 * (halve a).1.toNat + flagNat (halve a).2 = a.toNat := by
  have ha := a.toNat_lt
  simp only [halve, flagNat_decide, UInt8.toNat_ofNat']
  split <;> omega

theorem toNat_double : (double a).1.toNat + 256 * flagNat (double a).2 = 2 * a.toNat := by
  have ha := a.toNat_lt
  simp only [double, flagNat_decide, UInt8.toNat_ofNat']
  split <;> omega

/-- Three digits make up the number in base ten. -/
theorem decimalDigits_eq : ∃ hundreds tens ones : UInt8,
    decimalDigits a = [hundreds, tens, ones] ∧
      hundreds.toNat < 10 ∧ tens.toNat < 10 ∧ ones.toNat < 10 ∧
      100 * hundreds.toNat + 10 * tens.toNat + ones.toNat = a.toNat := by
  have ha := a.toNat_lt
  refine ⟨_, _, _, rfl, ?_⟩
  simp only [UInt8.toNat_ofNat']
  omega

end Arithmetic

namespace Machine

variable {m : Machine} {x y : Register}

/-- What an operation leaves: a result in Vx, the flag in VF unless the result is there, and nothing
else. The law ties result and flag to the operands. -/
structure LeavesFlagged (m : Machine) (o : Outcome Machine Unit) (x : Register)
    (law : Nat → Nat → Prop) : Prop where
  succeeds : o.result = .ok ()
  computed : ∃ flag ≤ 1, law (o.state.reg x).toNat flag ∧
    (x ≠ 0xF → (o.state.reg 0xF).toNat = flag)
  others : ∀ z, z ≠ x → z ≠ 0xF → o.state.reg z = m.reg z
  rest : o.state = { m with registers := o.state.registers, pc := m.pc + 2 }

theorem leavesFlagged_setFlagged {outcome : UInt8 × Bool} {law : Nat → Nat → Prop}
    (h : law outcome.1.toNat (Arithmetic.flagNat outcome.2)) :
    LeavesFlagged m (.done () (m.setFlagged x outcome).advance) x law := by
  have hresult : (m.setFlagged x outcome).reg x = outcome.1 := reg_setReg_self _ x outcome.1
  have hflag : x ≠ 0xF → (m.setFlagged x outcome).reg 0xF = Arithmetic.flagByte outcome.2 := by
    intro hx
    exact (reg_setReg_of_ne _ _ hx.symm).trans (reg_setReg_self m 0xF _)
  refine ⟨rfl, ⟨_, Arithmetic.flagNat_le outcome.2, ?_, fun hx => ?_⟩, fun z hx hF => ?_, rfl⟩
  · show law ((m.setFlagged x outcome).reg x).toNat _
    rw [hresult]
    exact h
  · exact congrArg UInt8.toNat (hflag hx)
  · exact reg_setFlagged_of_ne m outcome (by simp [hx, hF])

/-- The digits of Vx are stored from the index on if they fit there; otherwise nothing happens. -/
structure StoresDigits (m : Machine) (o : Outcome Machine Unit) (x : Register) : Prop where
  stored : m.index.toNat + 3 ≤ 4096 → o.result = .ok () ∧
    ∃ hundreds tens ones : UInt8, hundreds.toNat < 10 ∧ tens.toNat < 10 ∧ ones.toNat < 10 ∧
      100 * hundreds.toNat + 10 * tens.toNat + ones.toNat = (m.reg x).toNat ∧
      o.state.memory[m.index.toNat]? = some hundreds ∧
      o.state.memory[m.index.toNat + 1]? = some tens ∧
      o.state.memory[m.index.toNat + 2]? = some ones
  refused : ¬ m.index.toNat + 3 ≤ 4096 →
    o = .failed (.addressOutOfRange m.index.toNat 3) m
  others : ∀ (a : Nat) (ha : a < 4096), ¬ (m.index.toNat ≤ a ∧ a < m.index.toNat + 3) →
    o.state.memory[a] = m.memory[a]
  rest : o.state = { m with memory := o.state.memory, pc := o.state.pc }

theorem storesDigits_execute (supply : Supply) (m : Machine) (x : Register) :
    StoresDigits m (m.execute supply (.storeDecimal x)) x := by
  by_cases hfits : m.index.toNat + 3 ≤ 4096
  · have haccepted : m.refusal? (.storeDecimal x) = none := if_pos hfits
    obtain ⟨hundreds, tens, ones, hdigits, hh, ht, ho, hsum⟩ :=
      Arithmetic.decimalDigits_eq (m.reg x)
    rw [execute_storeDecimal haccepted, hdigits]
    have hbyte : ∀ k < 3, (m.memory.write m.index.toNat [hundreds, tens, ones])[m.index.toNat + k]? =
        [hundreds, tens, ones][k]? :=
      fun k hk => Memory.getElem?_write_inside m.memory hk (by omega)
    constructor
    case stored =>
      exact fun _ => ⟨rfl, hundreds, tens, ones, hh, ht, ho, hsum,
        hbyte 0 (by omega), hbyte 1 (by omega), hbyte 2 (by omega)⟩
    case refused => exact fun hnot => absurd hfits hnot
    case others => exact fun a ha houtside => Memory.getElem_write_outside m.memory ha houtside
    case rest => rfl
  · have hrefused : m.refusal? (.storeDecimal x) =
        some (.addressOutOfRange m.index.toNat 3) := if_neg hfits
    rw [execute_of_refusal hrefused]
    exact ⟨fun h => absurd h hfits, fun _ => rfl, fun _ _ _ => rfl, rfl⟩

/-- Results and flags are those of the operands before the instruction, whichever registers are the
same, and the digits of a register make up what it holds. -/
theorem flags_right_under_aliasing (supply : Supply) (m : Machine) (x y : Register) :
    LeavesFlagged m (m.execute supply (.add x y)) x (fun result flag =>
        result + 256 * flag = (m.reg x).toNat + (m.reg y).toNat) ∧
      LeavesFlagged m (m.execute supply (.subtract x y)) x (fun result flag =>
        (result : Int) = ((m.reg x).toNat - (m.reg y).toNat : Int) % 256 ∧
          (flag = 1 ↔ (m.reg y).toNat < (m.reg x).toNat)) ∧
      LeavesFlagged m (m.execute supply (.subtractFrom x y)) x (fun result flag =>
        (result : Int) = ((m.reg y).toNat - (m.reg x).toNat : Int) % 256 ∧
          (flag = 1 ↔ (m.reg x).toNat < (m.reg y).toNat)) ∧
      LeavesFlagged m (m.execute supply (.shiftRight x)) x (fun result flag =>
        2 * result + flag = (m.reg x).toNat) ∧
      LeavesFlagged m (m.execute supply (.shiftLeft x)) x (fun result flag =>
        result + 256 * flag = 2 * (m.reg x).toNat) ∧
      StoresDigits m (m.execute supply (.storeDecimal x)) x := by
  refine ⟨?add, ?subtract, ?subtractFrom, ?shiftRight, ?shiftLeft, ?digits⟩
  case add => exact leavesFlagged_setFlagged (Arithmetic.toNat_add _ _)
  case subtract =>
    exact leavesFlagged_setFlagged ⟨Arithmetic.toNat_subtract _ _, Arithmetic.flag_subtract _ _⟩
  case subtractFrom =>
    exact leavesFlagged_setFlagged ⟨Arithmetic.toNat_subtract _ _, Arithmetic.flag_subtract _ _⟩
  case shiftRight => exact leavesFlagged_setFlagged (Arithmetic.toNat_halve _)
  case shiftLeft => exact leavesFlagged_setFlagged (Arithmetic.toNat_double _)
  case digits => exact storesDigits_execute supply m x

end Machine
end Chip8
