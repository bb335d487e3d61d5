import Chip8.Proofs.RunLoop.Screen
import Chip8.Proofs.RunLoop.Unkeyed
import Chip8.Proofs.Time.Beats

/-!
# The course of a run loop

A run loop on a logical clock settles at every instant: once a round has done what is due, another
one finds nothing to do until time passes. `course` are the run loops that come to the successive
instants when nothing arrives. Displays that fail are not covered.
-/
namespace Chip8.RunLoop

/-- Only a step fails among what is due, and then it has changed nothing. -/
theorem doDue_of_error {δ κ : Type} [Clock κ] {supply : Supply} {s : RunLoop δ κ} {fault : Fault}
    (h : (s.doDue supply).result = .error fault) :
    s.stepping.isDue (Clock.now s.clock) = true ∧
      (s.doDue supply).state.machine.pendingRedraws = s.machine.pendingRedraws := by
  obtain ⟨-, -, hpending, hstepping⟩ := releaseIfDue_picture s (Clock.now s.clock)
  rw [doDue, stepIfDue, hstepping] at h ⊢
  cases hdue : s.stepping.isDue (Clock.now s.clock) with
  | false =>
    rw [hdue] at h
    contradiction
  | true =>
    rw [hdue, if_pos rfl] at h
    rw [if_pos rfl]
    refine ⟨rfl, ?_⟩
    change ((s.releaseIfDue _).machine.step supply).result = .error fault at h
    show ((s.releaseIfDue _).machine.step supply).state.pendingRedraws = _
    rcases Machine.step_cases supply (s.releaseIfDue (Clock.now s.clock)).machine with
      ⟨_, _, -, hs⟩ | ⟨_, _, -, -, -, hs⟩
    · rw [hs, hpending]
    · rw [hs] at h
      contradiction

variable {δ : Type} {s : RunLoop δ LogicalClock}

/-- Nothing is left to do before time passes. -/
structure AtRest (s : RunLoop δ LogicalClock) : Prop where
  no_pending : s.machine.pendingRedraws = 0
  lt_stepping : s.clock.now < s.stepping.next
  lt_releasing : s.clock.now < s.releasing.next

theorem AtRest.not_due (h : s.AtRest) :
    s.stepping.isDue s.clock.now = false ∧ s.releasing.isDue s.clock.now = false :=
  ⟨decide_eq_false (Nat.not_le.mpr h.lt_stepping), decide_eq_false (Nat.not_le.mpr h.lt_releasing)⟩

theorem AtRest.doDue_eq (h : s.AtRest) (supply : Supply) : s.doDue supply = .done () s := by
  obtain ⟨hstepping, hreleasing⟩ := h.not_due
  show (s.releaseIfDue s.clock.now).stepIfDue supply s.clock.now = _
  rw [releaseIfDue, hreleasing, if_neg Bool.false_ne_true, stepIfDue, hstepping,
    if_neg Bool.false_ne_true]

/-- A run loop at rest has nothing to do but to wait. -/
theorem AtRest.prepare_eq [Display δ] (h : s.AtRest) (supply : Supply) :
    s.prepare supply = .done () s := by
  rw [prepare, h.doDue_eq]
  show (s.showPending).after [] = _
  rw [Outcome.after_nil, showPending, h.no_pending, showTimes]

variable [Display δ] {reading : Display.Reading δ}

/-- The beats lie apart, the display works, and a step that is due finds no request pending. -/
structure Ready (reading : Display.Reading δ) (s : RunLoop δ LogicalClock) : Prop where
  stepping_pos : 0 < s.stepping.period
  releasing_pos : 0 < s.releasing.period
  works : reading.works s.display
  no_pending_of_due : s.stepping.isDue s.clock.now = true → s.machine.pendingRedraws = 0

/-- Everything that is due has been done. -/
structure Settled (reading : Display.Reading δ) (s : RunLoop δ LogicalClock) : Prop where
  stepping_pos : 0 < s.stepping.period
  releasing_pos : 0 < s.releasing.period
  works : reading.works s.display
  no_pending : s.machine.pendingRedraws = 0
  lt_stepping : s.clock.now < s.stepping.next
  lt_releasing : s.clock.now < s.releasing.next

theorem showPending_works {κ : Type} {s : RunLoop δ κ} (h : reading.works s.display) :
    ∃ t, s.showPending = .done () t ∧ reading.works t.display ∧ t.machine.pendingRedraws = 0 := by
  cases hn : s.machine.pendingRedraws with
  | zero => exact ⟨s, by rw [showPending, hn, showTimes], h, hn⟩
  | succ n =>
    obtain ⟨t, hserved, hshows⟩ := showTimes_works h hn fun hzero => absurd hzero (by simp)
    exact ⟨t, by rw [showPending, hn, hserved], hshows.inSync.works, hshows.inSync.no_pending⟩

theorem picture_prepare (h : s.Ready reading) (supply : Supply) :
    reading.works (s.prepare supply).state.display ∧
      (s.prepare supply).state.machine.pendingRedraws = 0 := by
  have hworks : reading.works (s.doDue supply).state.display := by
    rw [doDue_state]
    exact h.works
  cases hresult : (s.doDue supply).result with
  | error fault =>
    obtain ⟨hdue, hpending⟩ := doDue_of_error hresult
    rw [prepare, Outcome.andThen_of_error hresult]
    exact ⟨hworks, hpending.trans (h.no_pending_of_due hdue)⟩
  | ok answer =>
    obtain ⟨t, hserved, hshown, hnone⟩ := showPending_works hworks
    rw [prepare, Outcome.andThen_of_ok hresult, hserved]
    exact ⟨hshown, hnone⟩

theorem settled_prepare (h : s.Ready reading) (supply : Supply) :
    (s.prepare supply).state.Settled reading := by
  obtain ⟨hworks, hnone⟩ := picture_prepare h supply
  obtain ⟨display, hstate⟩ := prepare_state supply s
  refine ⟨?_, ?_, hworks, hnone, ?_, ?_⟩
  · rw [hstate, Metronome.period_beat]
    exact h.stepping_pos
  · rw [hstate, Metronome.period_beat]
    exact h.releasing_pos
  · rw [hstate]
    exact Metronome.lt_next_beat h.stepping_pos _
  · rw [hstate]
    exact Metronome.lt_next_beat h.releasing_pos _

theorem Settled.atRest (h : s.Settled reading) : s.AtRest :=
  ⟨h.no_pending, h.lt_stepping, h.lt_releasing⟩

theorem Settled.now_lt_passOn (h : s.Settled reading) : s.clock.now < s.passOn.clock.now := by
  have hdeadline : s.clock.now < s.deadline := Nat.lt_min.mpr ⟨h.lt_stepping, h.lt_releasing⟩
  exact Nat.lt_of_lt_of_le hdeadline (Nat.le_max_right _ _)

theorem Settled.ready_passOn (h : s.Settled reading) : s.passOn.Ready reading :=
  ⟨h.stepping_pos, h.releasing_pos, h.works, fun _ => h.no_pending⟩

variable {supply : Supply} {m n : Nat}

/-- The run loop that comes to the instant `n` after `s` when nothing arrives. -/
def course (supply : Supply) (s : RunLoop δ LogicalClock) : Nat → RunLoop δ LogicalClock
  | 0 => s
  | n + 1 => ((course supply s n).prepare supply).state.passOn

theorem ready_course (h : s.Ready reading) (supply : Supply) (n : Nat) :
    (s.course supply n).Ready reading := by
  induction n with
  | zero => exact h
  | succ n ih => exact (settled_prepare ih supply).ready_passOn

theorem settled_course (h : s.Ready reading) (supply : Supply) (n : Nat) :
    ((s.course supply n).prepare supply).state.Settled reading :=
  settled_prepare (ready_course h supply n) supply

theorem now_course_lt_succ (h : s.Ready reading) (supply : Supply) (n : Nat) :
    (s.course supply n).clock.now < (s.course supply (n + 1)).clock.now := by
  have hlt := (settled_course h supply n).now_lt_passOn
  rw [clock_prepare] at hlt
  exact hlt

theorem now_course_le (h : s.Ready reading) (supply : Supply) (hle : m ≤ n) :
    (s.course supply m).clock.now ≤ (s.course supply n).clock.now := by
  induction hle with
  | refl => exact Nat.le_refl _
  | step _ ih => exact Nat.le_trans ih (Nat.le_of_lt (now_course_lt_succ h supply _))

theorem now_course_lt (h : s.Ready reading) (supply : Supply) (hlt : m < n) :
    (s.course supply m).clock.now < (s.course supply n).clock.now :=
  Nat.lt_of_lt_of_le (now_course_lt_succ h supply m) (now_course_le h supply hlt)

/-- The instants of a course come at different times. -/
theorem now_course_inj (h : s.Ready reading) (supply : Supply)
    (heq : (s.course supply m).clock.now = (s.course supply n).clock.now) : m = n := by
  rcases Nat.lt_trichotomy m n with hlt | rfl | hlt
  · have := now_course_lt h supply hlt
    omega
  · rfl
  · have := now_course_lt h supply hlt
    omega

end Chip8.RunLoop
