import Chip8.Proofs.Machine.Keys
import Chip8.Proofs.RunLoop.Operations

/-!
# A run loop without its keys

`unkeyed` forgets which keys are down and how they come in. A round whose step does not look at the
keys does what it would do without any: `prepare_unkeyed`. The wait that follows presses a key at
once or lets time pass, and is all that a signal can change. Rounds whose step looks at the keys are
not covered.
-/
namespace Chip8.RunLoop

variable {δ κ : Type}

/-- What is left of a run loop when its keys are disregarded. -/
def unkeyed (s : RunLoop δ κ) : RunLoop δ κ :=
  { s with
    machine := s.machine.withKeys .released
    inbound := Mailbox.new none false
    inputGone := false }

/-- Whether a round that begins here carries out an instruction that looks at the keys. -/
def readsKeys [Clock κ] (s : RunLoop δ κ) : Bool :=
  s.stepping.isDue (Clock.now s.clock) && s.machine.readsKeys

theorem readsKeys_unkeyed [Clock κ] (s : RunLoop δ κ) : s.unkeyed.readsKeys = s.readsKeys := rfl

theorem releaseIfDue_unkeyed (s : RunLoop δ κ) (now : Nat) :
    s.unkeyed.releaseIfDue now = (s.releaseIfDue now).unkeyed := by
  rw [releaseIfDue_eq, releaseIfDue_eq]
  show (⟨if s.releasing.isDue now then (s.machine.withKeys .released).releaseKeys
    else s.machine.withKeys .released, _, _, _, _, _, _⟩ : RunLoop δ κ) = _
  cases s.releasing.isDue now <;> rfl

theorem stepIfDue_unkeyed {s : RunLoop δ κ} {now : Nat}
    (h : (s.stepping.isDue now && s.machine.readsKeys) = false) (supply : Supply) :
    s.unkeyed.stepIfDue supply now = (s.stepIfDue supply now).within unkeyed := by
  have hunkeyed : s.unkeyed.stepping = s.stepping := rfl
  rw [stepIfDue, stepIfDue, hunkeyed]
  cases hdue : s.stepping.isDue now with
  | false => rfl
  | true =>
    rw [hdue, Bool.true_and] at h
    rw [if_pos rfl, if_pos rfl, unkeyed, Machine.step_withKeys h]
    rfl

theorem readsKeys_releaseIfDue (s : RunLoop δ κ) (now : Nat) :
    ((s.releaseIfDue now).stepping.isDue now && (s.releaseIfDue now).machine.readsKeys) =
      (s.stepping.isDue now && s.machine.readsKeys) := by
  unfold releaseIfDue
  split <;> rfl

theorem showTimes_unkeyed [Display δ] (count : Nat) (s : RunLoop δ κ) :
    s.unkeyed.showTimes count = (s.showTimes count).within unkeyed := by
  induction count generalizing s with
  | zero => rfl
  | succ count ih =>
    have htake : s.unkeyed.machine.takeRedraw? =
        s.machine.takeRedraw?.map (Machine.withKeys · .released) :=
      Machine.takeRedraw?_withKeys s.machine .released
    rw [showTimes, showTimes, htake]
    cases s.machine.takeRedraw? with
    | none => rfl
    | some machine =>
      have hrender : (machine.withKeys .released).frame.render s.unkeyed.display =
          machine.frame.render s.display := rfl
      simp only [Option.map_some, hrender]
      rcases machine.frame.render s.display with ⟨_ | _, display⟩
      · rfl
      · exact ih { s with machine := machine, display := display }

theorem prepare_unkeyed [Clock κ] [Display δ] {s : RunLoop δ κ} (h : s.readsKeys = false)
    (supply : Supply) : s.unkeyed.prepare supply = (s.prepare supply).within unkeyed := by
  have hdue : s.unkeyed.doDue supply = (s.doDue supply).within unkeyed := by
    have hreads := readsKeys_releaseIfDue s (Clock.now s.clock)
    show (s.unkeyed.releaseIfDue (Clock.now s.clock)).stepIfDue supply (Clock.now s.clock) = _
    rw [releaseIfDue_unkeyed, stepIfDue_unkeyed (hreads.trans h)]
    rfl
  rw [prepare, hdue]
  exact Outcome.andThen_within _ _ fun _ t => showTimes_unkeyed t.machine.pendingRedraws t

/-- The run loop when nothing has arrived before its deadline. -/
def passOn (s : RunLoop δ LogicalClock) : RunLoop δ LogicalClock :=
  { s with clock := s.clock.advanceTo s.deadline }

theorem unkeyed_wakeUp (s : RunLoop δ κ) (ending : WaitEnd Signal) :
    (s.wakeUp ending).state.unkeyed = s.unkeyed := by
  cases ending with
  | arrival signal => cases signal <;> rfl
  | deadline => rfl
  | deserted =>
    unfold wakeUp
    dsimp only
    split <;> rfl

theorem unkeyed_await (s : RunLoop δ LogicalClock) :
    s.await.state.unkeyed = s.unkeyed ∨ s.await.state.unkeyed = s.unkeyed.passOn := by
  have hwoken : s.await.state.unkeyed =
      { s.unkeyed with clock := (s.clock.wait s.inbound s.deadline).clock } :=
    unkeyed_wakeUp _ _
  rw [hwoken]
  rcases LogicalClock.clock_wait s.clock s.inbound s.deadline with hclock | hclock
  · left
    rw [hclock]
    rfl
  · right
    rw [hclock]
    rfl

/-- A round whose step does not look at the keys does what it would do without any, and then time
stands still or moves to the deadline. -/
theorem round_unkeyed [Display δ] {s : RunLoop δ LogicalClock} (h : s.readsKeys = false)
    (supply : Supply) :
    ((s.round supply).state.unkeyed = (s.unkeyed.prepare supply).state ∨
        (s.round supply).state.unkeyed = (s.unkeyed.prepare supply).state.passOn) ∧
      ∀ fault, (s.round supply).result = .error fault ↔
        (s.unkeyed.prepare supply).result = .error fault := by
  rw [prepare_unkeyed h]
  show (_ = (s.prepare supply).state.unkeyed ∨ _ = (s.prepare supply).state.unkeyed.passOn) ∧
    ∀ fault, _ ↔ (s.prepare supply).result = .error fault
  -- all that can fail comes before the wait
  cases hresult : (s.prepare supply).result with
  | error fault =>
    rw [round_of_prepare_error hresult]
    refine ⟨.inl rfl, fun other => ?_⟩
    simp only [Except.error.injEq]
  | ok answer =>
    rw [round_of_prepare_ok hresult]
    refine ⟨unkeyed_await _, fun fault => ?_⟩
    have hwaited : ((s.prepare supply).state.await.after (s.prepare supply).log).result =
        (s.prepare supply).state.await.result := rfl
    rw [hwaited, await_result]
    constructor
    · intro herror
      contradiction
    · intro herror
      contradiction

end Chip8.RunLoop
