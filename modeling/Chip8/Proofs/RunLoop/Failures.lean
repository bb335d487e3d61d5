import Chip8.Proofs.Display.Failing
import Chip8.Proofs.Machine.Faults
import Chip8.Proofs.Machine.Parts
import Chip8.Proofs.RunLoop.Presses

/-!
# Rounds that fail

A round fails with the fault of its step or with that of its display, and the fault tells which: a
step never blames a device. In the first case the machine is left as the step found it and nothing
else has happened but the beats that were due; in the second the step has been taken and requests
have been served up to the one that failed. Either way the round has not come to its wait. Whether a
round fails is not said here.
-/
namespace Chip8

theorem Machine.not_device_of_step_error {supply : Supply} {m : Machine} {message : String} :
    (m.step supply).result ≠ .error (.device message) := by
  intro h
  have hraises : m.Raises (.device message) := raises_of_refused (stepRefusal_of_error h)
  exact hraises

namespace RunLoop

variable {δ κ : Type} {supply : Supply} {fault : Fault}

section

variable [Clock κ]

/-- The machine of a round once the keys have been released and a step has been taken, so far as
they were due. -/
def stepped (supply : Supply) (s : RunLoop δ κ) : Machine :=
  if s.stepping.isDue (Clock.now s.clock) then (s.atStep.step supply).state else s.atStep

theorem doDue_eq (supply : Supply) (s : RunLoop δ κ) :
    (s.doDue supply).result =
        (if s.stepping.isDue (Clock.now s.clock) then (s.atStep.step supply).result else .ok ()) ∧
      (s.doDue supply).state =
        { s with
          machine := s.stepped supply
          stepping := s.stepping.beat (Clock.now s.clock)
          releasing := s.releasing.beat (Clock.now s.clock) } := by
  rw [doDue, stepIfDue_state, stepped, atStep]
  have hstepping : (s.releaseIfDue (Clock.now s.clock)).stepping = s.stepping := by
    rw [releaseIfDue_eq]
  constructor
  · rw [stepIfDue, hstepping]
    split <;> rfl
  · rw [releaseIfDue_eq]

end

variable [Display δ]

/-- Serving requests fails at one of them, those before it having been served with the frame. -/
theorem showTimes_error {count : Nat} {s : RunLoop δ κ}
    (h : (s.showTimes count).result = .error fault) :
    ∃ served shown display, served < s.machine.pendingRedraws ∧
      s.machine.frame.Rendered served s.display shown ∧
      s.machine.frame.render shown = (.error fault, display) ∧
      (s.showTimes count).state =
        { s with
          machine := { s.machine with
            pendingRedraws := s.machine.pendingRedraws - (served + 1) }
          display := display } := by
  induction count generalizing s with
  | zero => cases h
  | succ count ih =>
    unfold showTimes Machine.takeRedraw? at h ⊢
    by_cases hnone : s.machine.pendingRedraws = 0
    · rw [if_pos hnone] at h
      cases h
    · rw [if_neg hnone] at h ⊢
      dsimp only at h ⊢
      split at h
      · next display hrender =>
        obtain ⟨served, shown, last, hserved, hrendered, hfails, hstate⟩ := ih h
        dsimp only at hserved hrendered hfails hstate
        refine ⟨served + 1, shown, last, by omega, .succ hrender hrendered, hfails, ?_⟩
        rw [hstate, Nat.sub_sub, Nat.add_comm 1]
      · next cause display hrender =>
        cases h
        exact ⟨0, s.display, display, by omega, .zero _, hrender, rfl⟩

variable [Clock κ]

/-- A round that fails has not come to its wait: its step has failed, or else its display has. -/
theorem round_error_cases {s : RunLoop δ κ} (h : (s.round supply).result = .error fault) :
    ((s.doDue supply).result = .error fault ∧
        (s.round supply).state = (s.doDue supply).state) ∨
      ((s.doDue supply).result = .ok () ∧
        (s.doDue supply).state.showPending.result = .error fault ∧
        (s.round supply).state = (s.doDue supply).state.showPending.state) := by
  cases hdue : (s.doDue supply).result with
  | error cause =>
    rw [round_of_error hdue] at h ⊢
    cases h
    exact .inl ⟨rfl, rfl⟩
  | ok answer =>
    right
    rw [round_of_ok hdue] at h ⊢
    cases hshow : (s.doDue supply).state.showPending.result with
    | error cause =>
      rw [Outcome.andThen_of_error hshow] at h ⊢
      cases h
      exact ⟨rfl, rfl, rfl⟩
    | ok answer =>
      -- a round that comes to its wait does not fail
      rw [Outcome.andThen_of_ok hshow] at h
      have hawait := (s.doDue supply).state.showPending.state.await_result
      change (s.doDue supply).state.showPending.state.await.result = _ at h
      rw [hawait] at h
      cases h

/-- A round that its step has ended: the keys have been released if that was due and the beats that
were due have been struck; for the rest the run loop is as it was. -/
structure StopsAtStep (supply : Supply) (s : RunLoop δ κ) (fault : Fault) : Prop where
  due : s.stepping.isDue (Clock.now s.clock) = true
  step_eq : (s.atStep.step supply).result = .error fault
  state_eq : (s.round supply).state =
    { s with
      machine := if s.releasing.isDue (Clock.now s.clock) then s.machine.releaseKeys else s.machine
      stepping := s.stepping.beat (Clock.now s.clock)
      releasing := s.releasing.beat (Clock.now s.clock) }

/-- A round that its display has ended, in the course of serving the last of `attempts` requests:
what was due has been done, and for the rest the run loop is as it was. The display has been shown
the frame before that, then it has failed once `painted` cells of it had been painted. -/
structure StopsAtDisplay (supply : Supply) (s : RunLoop δ κ) (message : String)
    (attempts painted : Nat) : Prop where
  step_ok : s.stepping.isDue (Clock.now s.clock) = true → (s.atStep.step supply).result = .ok ()
  attempts_pos : 0 < attempts
  attempts_le : attempts ≤ (s.stepped supply).pendingRedraws
  state_eq : (s.round supply).state =
    { s with
      machine := { s.stepped supply with
        pendingRedraws := (s.stepped supply).pendingRedraws - attempts }
      display := (s.round supply).state.display
      stepping := s.stepping.beat (Clock.now s.clock)
      releasing := s.releasing.beat (Clock.now s.clock) }
  calls : ∃ shown, (s.stepped supply).frame.Rendered (attempts - 1) s.display shown ∧
    (s.stepped supply).frame.FailsAt shown message (s.round supply).state.display painted
  shows : ∀ (recording : Display.Recording δ) (c : Cell), c.val < painted →
    (recording.shown (s.round supply).state.display).lit c = (s.stepped supply).frame.lit c

theorem stopsAtStep_of_doDue {s : RunLoop δ κ} (h : (s.doDue supply).result = .error fault)
    (hstate : (s.round supply).state = (s.doDue supply).state) : s.StopsAtStep supply fault := by
  obtain ⟨hresult, hdone⟩ := doDue_eq supply s
  cases hdue : s.stepping.isDue (Clock.now s.clock) with
  | false =>
    rw [hresult, hdue] at h
    cases h
  | true =>
    have hstep : (s.atStep.step supply).result = .error fault := by
      rw [hresult, hdue] at h
      exact h
    refine ⟨hdue, hstep, ?_⟩
    rw [hstate, hdone, stepped, hdue, if_pos rfl, Machine.step_state_of_error hstep, atStep,
      releaseIfDue_eq]

theorem stopsAtDisplay_of_showPending {s : RunLoop δ κ} (hok : (s.doDue supply).result = .ok ())
    (h : (s.doDue supply).state.showPending.result = .error fault)
    (hstate : (s.round supply).state = (s.doDue supply).state.showPending.state) :
    ∃ message attempts painted, fault = .device message ∧
      s.StopsAtDisplay supply message attempts painted := by
  obtain ⟨hresult, hdone⟩ := doDue_eq supply s
  obtain ⟨served, shown, display, hserved, hrendered, hfails, hlast⟩ := showTimes_error h
  obtain ⟨message, painted, hfault, hfailsAt⟩ := Frame.render_error hfails
  have hround : (s.round supply).state = _ := hstate.trans hlast
  rw [hdone] at hserved hrendered hfailsAt hround
  have hdisplay : (s.round supply).state.display = display := by rw [hround]
  rw [← hdisplay] at hfailsAt hround
  refine ⟨message, served + 1, painted, hfault, ?_, Nat.succ_pos _, hserved, hround,
    ⟨shown, hrendered, hfailsAt⟩, fun recording c hc => hfailsAt.lit_shown recording hc⟩
  intro hdue
  rw [hresult, hdue] at hok
  exact hok

/-- A round that fails with anything but a device's message has been ended by its step, and one that
fails with a device's message by its display. -/
theorem failing_round_stops {δ κ : Type} [Display δ] [Clock κ] (supply : Supply) (s : RunLoop δ κ)
    (fault : Fault) (h : (s.round supply).result = .error fault) :
    ((∀ message, fault ≠ .device message) → s.StopsAtStep supply fault) ∧
      ∀ message, fault = .device message →
        ∃ attempts painted, s.StopsAtDisplay supply message attempts painted := by
  rcases round_error_cases h with ⟨hdue, hstate⟩ | ⟨hok, hshow, hstate⟩
  · have hstops := stopsAtStep_of_doDue hdue hstate
    refine ⟨fun _ => hstops, ?_⟩
    rintro message rfl
    exact absurd hstops.step_eq Machine.not_device_of_step_error
  · obtain ⟨message, attempts, painted, rfl, hstops⟩ :=
      stopsAtDisplay_of_showPending hok hshow hstate
    refine ⟨fun hother => absurd rfl (hother message), ?_⟩
    intro told heq
    cases heq
    exact ⟨attempts, painted, hstops⟩

/-- A word that is no instruction, met when a release is due too, and a display that fails at its
third write. The key that waits is left where it is both times. -/
theorem failing_round_stops_twice :
    let supply : Supply := ⟨fun _ => 0, Supply.heldKey⟩
    let before (program : List UInt8) (display : Recorder) : RunLoop Recorder LogicalClock :=
      (start (Machine.initial.install program).state display
        (Mailbox.new (some inputCapacity) false) ⟨0⟩ ⟨100, 100⟩).after supply
          [.offer (.key 1), .round, .round, .offer (.key 2)]
    let unknown := before [0x00, 0x00] Recorder.new
    let broken := before [0x00, 0xE0] (Recorder.failingAt 3 0)
    (unknown.round supply).result = .error (.unknownWord 0) ∧
      unknown.StopsAtStep supply (.unknownWord 0) ∧
      (unknown.round supply).state.inbound.waiting = [.key 2] ∧
      (broken.round supply).result = .error (.device "display write failed") ∧
      ∃ attempts painted, broken.StopsAtDisplay supply "display write failed" attempts painted := by
  intro supply before unknown broken
  have hrun : (unknown.round supply).fault? = some (.unknownWord 0) ∧
      unknown.inbound.waiting = [.key 2] ∧
      (broken.round supply).fault? = some (.device "display write failed") := by
    decide +kernel
  obtain ⟨hunknown, hwaiting, hbroken⟩ := hrun
  rw [Outcome.fault?_eq_some_iff] at hunknown hbroken
  have hstops := (failing_round_stops supply unknown _ hunknown).1 fun _ h => by cases h
  refine ⟨hunknown, hstops, ?_, hbroken, (failing_round_stops supply broken _ hbroken).2 _ rfl⟩
  rw [hstops.state_eq]
  exact hwaiting

end RunLoop
end Chip8
