import Chip8.Display
import Chip8.Proofs.Machine.Keys
import Chip8.Proofs.RunLoop.Operations

/-!
# How long a pressed key is seen

A key goes down at the end of the round that takes its signal, and stays down until the keys are
released. So every later step finds it down unless a release has come in between. The release of a
round comes before its step, so where both are due at once the step no longer finds the key. Which
keys are down after a release is not said here.
-/
namespace Chip8

namespace RunLoop

variable {δ κ : Type} [Display δ] [Clock κ] {supply : Supply} {s : RunLoop δ κ} {code : UInt8}

/-- The machine as the step of a round finds it. -/
def atStep (s : RunLoop δ κ) : Machine := (s.releaseIfDue (Clock.now s.clock)).machine

/-- A round that takes a key's signal leaves the key down. -/
theorem isDown_round_of_taken (hcode : code.toNat ≤ 0xF)
    (htaken : s.taken? supply = some (.key code)) :
    (s.round supply).state.machine.keypad.isDown code = true := by
  rw [machine_round, operations, htaken, Machine.run_append]
  show (Keypad.press _ code).isDown code = true
  have hlt : code.toNat < 16 := by omega
  rw [Keypad.isDown_press, beq_self_eq_true, decide_eq_true hlt]
  rfl

theorem isDown_round (hquiet : s.releasing.isDue (Clock.now s.clock) = false)
    (hdown : s.machine.keypad.isDown code = true) :
    (s.round supply).state.machine.keypad.isDown code = true := by
  rw [machine_round]
  refine (Machine.isDown_run_iff supply s.machine _ code).mpr (.inr ⟨hdown, ?_⟩)
  rw [(mem_operations_iff supply s).2, hquiet]
  exact Bool.false_ne_true

theorem isDown_after {events : List Event}
    (hquiet : ∀ r ∈ s.rounds supply events, r.releasing.isDue (Clock.now r.clock) = false)
    (hdown : s.machine.keypad.isDown code = true) :
    (s.after supply events).machine.keypad.isDown code = true := by
  induction events generalizing s with
  | nil => exact hdown
  | cons event events ih =>
    cases event with
    | offer signal => exact ih hquiet hdown
    | hangUp => exact ih hquiet hdown
    | round =>
      have hhere := hquiet s List.mem_cons_self
      exact ih (fun r hr => hquiet r (List.mem_cons_of_mem s hr)) (isDown_round hhere hdown)

/-- A key whose signal a round has taken is found down by the step of any later round, unless the
keys have been released in a round after that one, up to and including the round of the step. -/
theorem press_seen_unless_released {δ κ : Type} [Display δ] [Clock κ] (supply : Supply)
    (s : RunLoop δ κ) (code : UInt8) (later : List Event) (hcode : code.toNat ≤ 0xF)
    (htaken : s.taken? supply = some (.key code))
    (hquiet : ∀ r ∈ (s.act supply .round).rounds supply (later ++ [.round]),
      r.releasing.isDue (Clock.now r.clock) = false) :
    ((s.act supply .round).after supply later).atStep.keypad.isDown code = true := by
  rw [rounds_append] at hquiet
  have hlast := hquiet ((s.act supply .round).after supply later)
    (List.mem_append_right _ List.mem_cons_self)
  have hdown := isDown_after (fun r hr => hquiet r (List.mem_append_left _ hr))
    (isDown_round_of_taken hcode htaken)
  rw [atStep, releaseIfDue, hlast]
  exact hdown

/-- A program that waits for a key, with ten steps to each release. -/
theorem press_seen_unless_released_waiting :
    let supply : Supply := ⟨fun _ => 0, Supply.heldKey⟩
    let s : RunLoop Recorder LogicalClock :=
      (start (Machine.initial.install [0xF2, 0x0A, 0x12, 0x02]).state Recorder.new
        (Mailbox.new (some inputCapacity) false) ⟨0⟩ ⟨100, 10⟩).after supply [.offer (.key 0xB)]
    s.taken? supply = some (.key 0xB) ∧
      ((s.act supply .round).after supply [.round]).atStep.keypad.isDown 0xB = true := by
  intro supply s
  have htaken : s.taken? supply = some (.key 0xB) := by decide +kernel
  exact ⟨htaken, press_seen_unless_released supply s 0xB [.round] (by decide) htaken
    (by decide +kernel)⟩

/-- The same program with as many releases as steps: the key is pressed at once, and the first step
after that, in the third round, finds it released. -/
theorem press_released_before_step :
    let supply : Supply := ⟨fun _ => 0, Supply.heldKey⟩
    let s : RunLoop Recorder LogicalClock :=
      (start (Machine.initial.install [0xF2, 0x0A, 0x12, 0x02]).state Recorder.new
        (Mailbox.new (some inputCapacity) false) ⟨0⟩ ⟨100, 100⟩).after supply [.offer (.key 0xB)]
    let u := (s.act supply .round).after supply [.round]
    s.taken? supply = some (.key 0xB) ∧
      (∀ r ∈ (s.act supply .round).rounds supply [.round],
        r.stepping.isDue r.clock.now = false) ∧
      u.stepping.isDue u.clock.now = true ∧ u.atStep.keypad.isDown 0xB = false := by
  decide +kernel

end RunLoop
end Chip8
