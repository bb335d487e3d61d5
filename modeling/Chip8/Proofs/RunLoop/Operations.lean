import Chip8.Proofs.Machine.Operation
import Chip8.Proofs.RunLoop.Event
import Chip8.Proofs.Time.Waiting

/-!
# What a round does to its machine

All that can fail in a round comes before its wait; `prepare` is that part. A round carries out
operations on its machine: a release of the keys and a step if they are due, in this order, then one
request taken for each frame shown, then the press of the key that the wait ended with.
`machine_round` says that nothing else happens to the machine, and `chronicle` lists the operations
of a history with their times. Whether anything is due when it should be is not said here.
-/
namespace Chip8

/-- The code of the key that an operation presses. -/
def Operation.pressed? : Operation → Option UInt8
  | press code => some code
  | _ => none

/-- The code of the key that a signal tells of. -/
def Signal.code? : Signal → Option UInt8
  | key code => some code
  | quit => none

/-- What a signal makes the run loop do to its machine. -/
def Signal.operations : Signal → List Operation
  | key code => [.press code]
  | quit => []

namespace RunLoop

variable {δ κ : Type}

/-- The operations that are due when a round begins at `now`. -/
def duties (s : RunLoop δ κ) (now : Nat) : List Operation :=
  (if s.releasing.isDue now then [.releaseKeys] else []) ++
    (if s.stepping.isDue now then [.step] else [])

theorem releaseIfDue_eq (s : RunLoop δ κ) (now : Nat) :
    s.releaseIfDue now =
      { s with
        machine := if s.releasing.isDue now then s.machine.releaseKeys else s.machine
        releasing := s.releasing.beat now } := by
  unfold releaseIfDue
  split
  · rfl
  · next h => rw [Metronome.beat_of_not_due (Bool.eq_false_iff.mpr h)]

theorem stepIfDue_state (supply : Supply) (s : RunLoop δ κ) (now : Nat) :
    (s.stepIfDue supply now).state =
      { s with
        machine := if s.stepping.isDue now then (s.machine.step supply).state else s.machine
        stepping := s.stepping.beat now } := by
  unfold stepIfDue
  split
  · rfl
  · next h =>
    rw [Metronome.beat_of_not_due (Bool.eq_false_iff.mpr h)]
    rfl

theorem run_duties (supply : Supply) (s : RunLoop δ κ) (now : Nat) (m : Machine) :
    m.run supply (s.duties now) =
      let released := if s.releasing.isDue now then m.releaseKeys else m
      if s.stepping.isDue now then (released.step supply).state else released := by
  unfold duties
  cases s.releasing.isDue now <;> cases s.stepping.isDue now <;> rfl

section

variable [Clock κ]

theorem doDue_state (supply : Supply) (s : RunLoop δ κ) :
    (s.doDue supply).state =
      { s with
        machine := s.machine.run supply (s.duties (Clock.now s.clock))
        stepping := s.stepping.beat (Clock.now s.clock)
        releasing := s.releasing.beat (Clock.now s.clock) } := by
  rw [doDue, stepIfDue_state, releaseIfDue_eq, run_duties]

/-- A wait never fails, and a quit signal alone makes it end the run. -/
theorem await_result (s : RunLoop δ κ) :
    s.await.result =
      .ok (if (Clock.wait s.clock s.inbound s.deadline).ending.signal? = some .quit then .shutDown
        else .proceed) := by
  unfold await wakeUp
  dsimp only
  cases (Clock.wait s.clock s.inbound s.deadline).ending with
  | arrival signal => cases signal <;> rfl
  | deadline => rfl
  | deserted =>
    dsimp only
    cases s.inputGone <;> rfl

theorem await_clock (s : RunLoop δ κ) :
    s.await.state.clock = (Clock.wait s.clock s.inbound s.deadline).clock ∧
      s.await.state.inbound = (Clock.wait s.clock s.inbound s.deadline).mailbox ∧
      s.await.state.stepping = s.stepping ∧ s.await.state.releasing = s.releasing := by
  unfold await wakeUp
  dsimp only
  split
  · exact ⟨rfl, rfl, rfl, rfl⟩
  · exact ⟨rfl, rfl, rfl, rfl⟩
  · exact ⟨rfl, rfl, rfl, rfl⟩
  · split
    · exact ⟨rfl, rfl, rfl, rfl⟩
    · exact ⟨rfl, rfl, rfl, rfl⟩

theorem machine_await (supply : Supply) (s : RunLoop δ κ) :
    s.await.state.machine = s.machine.run supply
      ((Clock.wait s.clock s.inbound s.deadline).ending.signal?.toList.flatMap
        Signal.operations) := by
  unfold await wakeUp
  dsimp only
  cases (Clock.wait s.clock s.inbound s.deadline).ending with
  | arrival signal => cases signal <;> rfl
  | deadline => rfl
  | deserted =>
    dsimp only
    cases s.inputGone <;> rfl

end

variable [Display δ]

/-- Showing frames takes requests and changes the display, and nothing else. -/
theorem showTimes_state (count : Nat) (s : RunLoop δ κ) :
    ∃ taken display, taken ≤ s.machine.pendingRedraws ∧
      (s.showTimes count).state =
        { s with
          machine := { s.machine with pendingRedraws := s.machine.pendingRedraws - taken }
          display := display } := by
  induction count generalizing s with
  | zero => exact ⟨0, s.display, Nat.zero_le _, rfl⟩
  | succ count ih =>
    unfold showTimes Machine.takeRedraw?
    by_cases hnone : s.machine.pendingRedraws = 0
    · rw [if_pos hnone]
      exact ⟨0, s.display, Nat.zero_le _, rfl⟩
    · rw [if_neg hnone]
      dsimp only
      split
      · next display _ =>
        obtain ⟨taken, shown, htaken, hstate⟩ := ih
          { s with
            machine := { s.machine with pendingRedraws := s.machine.pendingRedraws - 1 }
            display := display }
        dsimp only at htaken hstate
        refine ⟨taken + 1, shown, by omega, ?_⟩
        rw [hstate, Nat.sub_sub, Nat.add_comm 1 taken]
      · next display _ => exact ⟨1, display, by omega, rfl⟩

variable [Clock κ]

/-- The part of a round that comes before its wait. -/
def prepare (supply : Supply) (s : RunLoop δ κ) : Outcome (RunLoop δ κ) Unit :=
  (s.doDue supply).andThen fun _ t => t.showPending

theorem round_eq_prepare (supply : Supply) (s : RunLoop δ κ) :
    s.round supply = (s.prepare supply).andThen fun _ t => t.await := by
  rw [round_eq, prepare, Outcome.andThen_andThen]

theorem round_of_prepare_error {supply : Supply} {s : RunLoop δ κ} {fault : Fault}
    (h : (s.prepare supply).result = .error fault) :
    s.round supply = ⟨.error fault, (s.prepare supply).state, (s.prepare supply).log⟩ := by
  rw [round_eq_prepare, Outcome.andThen_of_error h]

theorem round_of_prepare_ok {supply : Supply} {s : RunLoop δ κ}
    (h : (s.prepare supply).result = .ok ()) :
    s.round supply = (s.prepare supply).state.await.after (s.prepare supply).log := by
  rw [round_eq_prepare, Outcome.andThen_of_ok h]

/-- Requests to show the frame that a round takes. -/
def served (supply : Supply) (s : RunLoop δ κ) : Nat :=
  (s.doDue supply).state.machine.pendingRedraws - (s.prepare supply).state.machine.pendingRedraws

/-- A round comes to its wait having struck the due beats and done what was due to the machine,
and having shown the display some frames. -/
theorem prepare_state (supply : Supply) (s : RunLoop δ κ) :
    ∃ display, (s.prepare supply).state =
      { s with
        machine := s.machine.run supply
          (s.duties (Clock.now s.clock) ++ List.replicate (s.served supply) .takeRedraw)
        stepping := s.stepping.beat (Clock.now s.clock)
        releasing := s.releasing.beat (Clock.now s.clock)
        display := display } := by
  rw [Machine.run_append, Machine.run_takeRedraws]
  have hdue := doDue_state supply s
  cases hresult : (s.doDue supply).result with
  | error fault =>
    have hprepare : (s.prepare supply).state = (s.doDue supply).state := by
      rw [prepare, Outcome.andThen_of_error hresult]
    refine ⟨s.display, ?_⟩
    rw [served, hprepare, Nat.sub_self, hdue]
    rfl
  | ok answer =>
    have hprepare : (s.prepare supply).state = ((s.doDue supply).state.showPending).state := by
      rw [prepare, Outcome.andThen_of_ok hresult]
      rfl
    obtain ⟨taken, display, htaken, hstate⟩ := showTimes_state
      (s.doDue supply).state.machine.pendingRedraws (s.doDue supply).state
    rw [← showPending] at hstate
    refine ⟨display, ?_⟩
    rw [served, hprepare, hstate, hdue]
    dsimp only
    rw [hdue] at htaken
    dsimp only at htaken
    rw [Nat.sub_sub_self htaken]

theorem clock_prepare (supply : Supply) (s : RunLoop δ κ) :
    (s.prepare supply).state.clock = s.clock := by
  obtain ⟨display, hstate⟩ := prepare_state supply s
  rw [hstate]

/-- The signal that the wait of a round ends with, if the round comes to its wait. -/
def taken? (supply : Supply) (s : RunLoop δ κ) : Option Signal :=
  match (s.prepare supply).result with
  | .ok () =>
    let t := (s.prepare supply).state
    (Clock.wait t.clock t.inbound t.deadline).ending.signal?
  | .error _ => none

theorem taken?_of_error {supply : Supply} {s : RunLoop δ κ} {fault : Fault}
    (h : (s.prepare supply).result = .error fault) : s.taken? supply = none := by
  rw [taken?, h]

theorem taken?_of_ok {supply : Supply} {s : RunLoop δ κ}
    (h : (s.prepare supply).result = .ok ()) :
    s.taken? supply =
      let t := (s.prepare supply).state
      (Clock.wait t.clock t.inbound t.deadline).ending.signal? := by
  rw [taken?, h]

/-- A round that comes to its wait goes on, unless it takes a signal to quit. -/
theorem round_result_of_prepare_ok {supply : Supply} {s : RunLoop δ κ}
    (h : (s.prepare supply).result = .ok ()) :
    (s.round supply).result =
      .ok (if s.taken? supply = some .quit then .shutDown else .proceed) := by
  rw [round_of_prepare_ok h, taken?_of_ok h]
  exact await_result _

theorem shutDown_iff_taken (supply : Supply) (s : RunLoop δ κ) :
    (s.round supply).result = .ok .shutDown ↔ s.taken? supply = some .quit := by
  cases hresult : (s.prepare supply).result with
  | error fault =>
    rw [taken?_of_error hresult, round_of_prepare_error hresult]
    simp
  | ok answer =>
    rw [round_result_of_prepare_ok hresult]
    split
    · next hquit => exact iff_of_true rfl hquit
    · next hquit => exact iff_of_false (by simp) hquit

/-- Everything that a round does to its machine, the first thing first. -/
def operations (supply : Supply) (s : RunLoop δ κ) : List Operation :=
  s.duties (Clock.now s.clock) ++ List.replicate (s.served supply) .takeRedraw ++
    (s.taken? supply).toList.flatMap Signal.operations

/-- The machine after a round is the one that its operations lead to. -/
theorem machine_round (supply : Supply) (s : RunLoop δ κ) :
    (s.round supply).state.machine = s.machine.run supply (s.operations supply) := by
  obtain ⟨display, hstate⟩ := prepare_state supply s
  rw [operations, Machine.run_append]
  cases hresult : (s.prepare supply).result with
  | error fault =>
    rw [round_of_prepare_error hresult, taken?_of_error hresult, hstate]
    rfl
  | ok answer =>
    have hawait := machine_await supply (s.prepare supply).state
    rw [← taken?_of_ok hresult, hstate] at hawait
    rw [round_of_prepare_ok hresult, hstate]
    exact hawait

/-- Beside what is due, a round takes requests and presses keys. -/
theorem operations_eq (supply : Supply) (s : RunLoop δ κ) :
    ∃ rest, s.operations supply = s.duties (Clock.now s.clock) ++ rest ∧
      ∀ op ∈ rest, op ≠ .step ∧ op ≠ .releaseKeys := by
  refine ⟨List.replicate (s.served supply) .takeRedraw ++
    (s.taken? supply).toList.flatMap Signal.operations, List.append_assoc _ _ _, ?_⟩
  intro op hop
  rcases List.mem_append.mp hop with hserved | hsignal
  · rw [List.eq_of_mem_replicate hserved]
    exact ⟨by decide, by decide⟩
  · obtain ⟨signal, -, hop⟩ := List.mem_flatMap.mp hsignal
    cases signal with
    | key code =>
      rw [List.mem_singleton.mp hop]
      exact ⟨by simp, by simp⟩
    | quit => contradiction

/-- A round steps the machine just when the stepping metronome is due, and releases its keys just
when the other one is. -/
theorem mem_operations_iff (supply : Supply) (s : RunLoop δ κ) :
    (.step ∈ s.operations supply ↔ s.stepping.isDue (Clock.now s.clock) = true) ∧
      (.releaseKeys ∈ s.operations supply ↔ s.releasing.isDue (Clock.now s.clock) = true) := by
  obtain ⟨rest, hops, hrest⟩ := operations_eq supply s
  have hstep : .step ∉ rest := fun h => (hrest _ h).1 rfl
  have hrelease : .releaseKeys ∉ rest := fun h => (hrest _ h).2 rfl
  rw [hops, List.mem_append, List.mem_append, or_iff_left hstep, or_iff_left hrelease, duties]
  cases s.releasing.isDue (Clock.now s.clock) <;> cases s.stepping.isDue (Clock.now s.clock) <;>
    simp

/-- A round steps the machine at most once, and releases its keys at most once. -/
theorem count_operations_le (supply : Supply) (s : RunLoop δ κ) :
    (s.operations supply).count .step ≤ 1 ∧ (s.operations supply).count .releaseKeys ≤ 1 := by
  obtain ⟨rest, hops, hrest⟩ := operations_eq supply s
  have hstep : rest.count .step = 0 := List.count_eq_zero.mpr fun h => (hrest _ h).1 rfl
  have hrelease : rest.count .releaseKeys = 0 :=
    List.count_eq_zero.mpr fun h => (hrest _ h).2 rfl
  rw [hops, List.count_append, List.count_append, hstep, hrelease, duties]
  cases s.releasing.isDue (Clock.now s.clock) <;> cases s.stepping.isDue (Clock.now s.clock) <;>
    decide

/-- A round strikes the beats that are due when it begins. -/
theorem metronomes_round (supply : Supply) (s : RunLoop δ κ) :
    (s.round supply).state.stepping = s.stepping.beat (Clock.now s.clock) ∧
      (s.round supply).state.releasing = s.releasing.beat (Clock.now s.clock) := by
  obtain ⟨display, hstate⟩ := prepare_state supply s
  cases hresult : (s.prepare supply).result with
  | error fault =>
    rw [round_of_prepare_error hresult, hstate]
    exact ⟨rfl, rfl⟩
  | ok answer =>
    obtain ⟨-, -, hstepping, hreleasing⟩ := await_clock (s.prepare supply).state
    rw [hstate] at hstepping hreleasing
    rw [round_of_prepare_ok hresult, hstate]
    exact ⟨hstepping, hreleasing⟩

/-- The operations of a round, with its time. -/
def timed (supply : Supply) (s : RunLoop δ κ) : List (Nat × Operation) :=
  (s.operations supply).map fun op => (Clock.now s.clock, op)

theorem map_snd_timed (supply : Supply) (s : RunLoop δ κ) :
    (s.timed supply).map Prod.snd = s.operations supply := by
  rw [timed, List.map_map]
  exact List.map_id _

/-- What a history does to the machine: each operation with the time of its round. -/
def chronicle (supply : Supply) (s : RunLoop δ κ) (events : List Event) : List (Nat × Operation) :=
  (s.rounds supply events).flatMap (timed supply)

theorem chronicle_round (supply : Supply) (s : RunLoop δ κ) (events : List Event) :
    s.chronicle supply (.round :: events) =
      s.timed supply ++ (s.act supply .round).chronicle supply events := rfl

theorem chronicle_append (supply : Supply) (s : RunLoop δ κ) (first second : List Event) :
    s.chronicle supply (first ++ second) =
      s.chronicle supply first ++ (s.after supply first).chronicle supply second := by
  rw [chronicle, rounds_append, List.flatMap_append]
  rfl

/-- The machine after a history is the one that its chronicle leads to. -/
theorem machine_after (supply : Supply) (s : RunLoop δ κ) (events : List Event) :
    (s.after supply events).machine =
      s.machine.run supply ((s.chronicle supply events).map Prod.snd) := by
  induction events generalizing s with
  | nil => rfl
  | cons event events ih =>
    rw [after, ih]
    cases event with
    | offer signal => rfl
    | hangUp => rfl
    | round =>
      rw [chronicle_round, List.map_append, Machine.run_append, map_snd_timed, ← machine_round]
      rfl

/-- A round that comes to its wait ends at the time that the wait for its deadline ends at. -/
theorem clock_round_of_prepare_ok {supply : Supply} {s : RunLoop δ κ}
    (h : (s.prepare supply).result = .ok ()) :
    (s.round supply).state.clock =
      (Clock.wait s.clock s.inbound (s.round supply).state.deadline).clock := by
  obtain ⟨display, hstate⟩ := prepare_state supply s
  obtain ⟨hclock, -, hstepping, hreleasing⟩ := await_clock (s.prepare supply).state
  have hdeadline : (s.prepare supply).state.await.state.deadline =
      (s.prepare supply).state.deadline := by
    rw [deadline, hstepping, hreleasing, deadline]
  rw [round_of_prepare_ok h]
  show (s.prepare supply).state.await.state.clock =
    (Clock.wait s.clock s.inbound (s.prepare supply).state.await.state.deadline).clock
  rw [hdeadline, hclock, hstate]

/-- A round lets time stand still or moves it to the earlier deadline. -/
theorem clock_round (supply : Supply) (s : RunLoop δ LogicalClock) :
    (s.round supply).state.clock = s.clock ∨
      (s.round supply).state.clock = s.clock.advanceTo (s.round supply).state.deadline := by
  cases hresult : (s.prepare supply).result with
  | error fault =>
    left
    rw [round_of_prepare_error hresult, clock_prepare]
  | ok answer =>
    rw [clock_round_of_prepare_ok hresult]
    exact LogicalClock.clock_wait _ _ _

theorem now_le_act (supply : Supply) (s : RunLoop δ LogicalClock) (event : Event) :
    s.clock.now ≤ (s.act supply event).clock.now := by
  cases event with
  | offer signal => exact Nat.le_refl _
  | hangUp => exact Nat.le_refl _
  | round =>
    rcases clock_round supply s with hclock | hclock
    · exact Nat.le_of_eq (congrArg LogicalClock.now hclock.symm)
    · rw [act, hclock]
      exact Nat.le_max_left _ _

end RunLoop
end Chip8
