import Chip8.Machine.Load
import Chip8.Machine.Execute

/-!
# What is done to a machine

The operations that whoever owns a machine has, and the machine after a list of them. An operation
that fails has still been carried out: the machine after it is the one that the failure left.
-/
namespace Chip8

/-- Something that can be done to a machine from outside. -/
inductive Operation where
  | step
  | press (code : UInt8)
  | releaseKeys
  | takeRedraw
  | install (program : List UInt8)
  deriving DecidableEq, Repr

namespace Machine

def act (supply : Supply) (m : Machine) : Operation → Machine
  | .step => (m.step supply).state
  | .press code => m.press code
  | .releaseKeys => m.releaseKeys
  | .takeRedraw => m.takeRedraw?.getD m
  | .install program => (m.install program).state

/-- The machine after some operations, the first of the list first. -/
def run (supply : Supply) : Machine → List Operation → Machine
  | m, [] => m
  | m, op :: ops => run supply (m.act supply op) ops

/-- What every operation keeps, every run keeps. -/
theorem run_induction {supply : Supply} {P : Machine → Prop}
    (keeps : ∀ m op, P m → P (m.act supply op)) (m : Machine) (ops : List Operation) (hm : P m) :
    P (m.run supply ops) := by
  induction ops generalizing m with
  | nil => exact hm
  | cons op ops ih => exact ih (m.act supply op) (keeps m op hm)

theorem run_append (supply : Supply) (m : Machine) (first second : List Operation) :
    m.run supply (first ++ second) = (m.run supply first).run supply second := by
  induction first generalizing m with
  | nil => rfl
  | cons op ops ih => exact ih (m.act supply op)

theorem takeRedraw_eq (m : Machine) :
    m.takeRedraw?.getD m = { m with pendingRedraws := m.pendingRedraws - 1 } := by
  unfold takeRedraw?
  split
  · next h => cases m; simp_all
  · rfl

theorem run_takeRedraws (supply : Supply) (m : Machine) (count : Nat) :
    m.run supply (List.replicate count .takeRedraw) =
      { m with pendingRedraws := m.pendingRedraws - count } := by
  induction count generalizing m with
  | zero => rfl
  | succ count ih =>
    rw [List.replicate_succ, run, ih, act, takeRedraw_eq]
    show { m with pendingRedraws := m.pendingRedraws - 1 - count } = _
    rw [Nat.sub_sub, Nat.add_comm 1 count]

theorem install_state_of_too_large {m : Machine} {program : List UInt8}
    (h : programCapacity < program.length) : (m.install program).state = m := by
  rw [install, if_pos h]
  rfl

theorem install_of_fits {m : Machine} {program : List UInt8}
    (h : ¬ programCapacity < program.length) :
    m.install program = ⟨.ok (), { m with memory := m.memory.write programStart program },
      [.programLoaded program.length]⟩ := by
  rw [install, if_neg h]

theorem install_state_of_fits {m : Machine} {program : List UInt8}
    (h : ¬ programCapacity < program.length) :
    (m.install program).state = { m with memory := m.memory.write programStart program } := by
  rw [install_of_fits h]

/-- Loading a program changes the memory at most. -/
theorem install_state (m : Machine) (program : List UInt8) :
    ∃ memory, (m.install program).state = { m with memory := memory } := by
  by_cases h : programCapacity < program.length
  · exact ⟨m.memory, install_state_of_too_large h⟩
  · exact ⟨_, install_state_of_fits h⟩

end Machine
end Chip8
