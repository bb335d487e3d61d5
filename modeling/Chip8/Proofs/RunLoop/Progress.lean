import Chip8.Proofs.RunLoop.Schedule

/-!
# Time passes while nothing happens

On a logical clock a round that finds no signal waits for the next beat. If the beats lie apart,
that is later than now, so such rounds use time up and every beat comes after finitely many of them.
A rate of more than a beat in a nanosecond makes a period of no length: then the next beat is always
there already, time stands still, and the other metronome never beats. `Progresses` and `Frozen` are
the invariants of the two cases.
-/
namespace Chip8.RunLoop

variable {δ : Type}

/-- Neither metronome has a period of no length. -/
structure Progresses (s : RunLoop δ LogicalClock) : Prop where
  stepping_pos : 0 < s.stepping.period
  releasing_pos : 0 < s.releasing.period

/-- Time stands still at `now`: one of the next beats is there already and will always be. A
metronome with a period of some length is ahead of that. -/
structure Frozen (now : Nat) (s : RunLoop δ LogicalClock) : Prop where
  now_eq : s.clock.now = now
  stopped : (s.stepping.period = 0 ∧ s.stepping.next ≤ now) ∨
    (s.releasing.period = 0 ∧ s.releasing.next ≤ now)
  stepping_ahead : 0 < s.stepping.period → now < s.stepping.next
  releasing_ahead : 0 < s.releasing.period → now < s.releasing.next

theorem frozen_start {rates : Rates} (h : 1000000000 < rates.stepHz ∨ 1000000000 < rates.resetHz)
    (machine : Machine) (display : δ) (inbound : Mailbox Signal) (origin : Nat) :
    (start machine display inbound (LogicalClock.mk origin) rates).Frozen origin := by
  refine ⟨rfl, ?_, Nat.lt_add_of_pos_right, Nat.lt_add_of_pos_right⟩
  rcases h with hstep | hreset
  · have hperiod := Metronome.period_ofRate_eq_zero hstep origin
    exact .inl ⟨hperiod, Nat.le_of_eq (congrArg (origin + ·) hperiod)⟩
  · have hperiod := Metronome.period_ofRate_eq_zero hreset origin
    exact .inr ⟨hperiod, Nat.le_of_eq (congrArg (origin + ·) hperiod)⟩

variable [Display δ] {supply : Supply} {s : RunLoop δ LogicalClock} {now : Nat}

/-- Whether a round that begins here finds no signal and goes on. -/
def idles (supply : Supply) (s : RunLoop δ LogicalClock) : Bool :=
  match s.inbound.waiting, (s.round supply).result with
  | [], .ok .proceed => true
  | _, _ => false

theorem idles_iff : s.idles supply = true ↔
    s.inbound.waiting = [] ∧ (s.round supply).result = .ok .proceed := by
  unfold idles
  split
  · next hnone hproceed => exact iff_of_true rfl ⟨hnone, hproceed⟩
  · next hnot => exact iff_of_false Bool.false_ne_true fun h => hnot h.1 h.2

/-- An idle round jumps to the next beat. -/
theorem clock_round_of_idles (h : s.idles supply = true) :
    (s.round supply).state.clock = s.clock.advanceTo (s.round supply).state.deadline := by
  obtain ⟨hnone, hproceed⟩ := idles_iff.mp h
  cases hresult : (s.prepare supply).result with
  | error fault =>
    rw [round_of_prepare_error hresult] at hproceed
    contradiction
  | ok answer =>
    rw [clock_round_of_prepare_ok hresult]
    show (LogicalClock.wait _ _ _).clock = _
    rw [LogicalClock.wait_of_empty _ _ hnone]

theorem periods_act (supply : Supply) (s : RunLoop δ LogicalClock) (event : Event) :
    (s.act supply event).stepping.period = s.stepping.period ∧
      (s.act supply event).releasing.period = s.releasing.period := by
  cases event with
  | offer signal => exact ⟨rfl, rfl⟩
  | hangUp => exact ⟨rfl, rfl⟩
  | round =>
    obtain ⟨hstepping, hreleasing⟩ := metronomes_round supply s
    rw [act, hstepping, hreleasing]
    exact ⟨Metronome.period_beat _ _, Metronome.period_beat _ _⟩

theorem periods_after (supply : Supply) (s : RunLoop δ LogicalClock) (events : List Event) :
    (s.after supply events).stepping.period = s.stepping.period ∧
      (s.after supply events).releasing.period = s.releasing.period := by
  induction events generalizing s with
  | nil => exact ⟨rfl, rfl⟩
  | cons event events ih =>
    obtain ⟨hstepping, hreleasing⟩ := periods_act supply s event
    rw [after, (ih _).1, (ih _).2]
    exact ⟨hstepping, hreleasing⟩

theorem progresses_act (h : s.Progresses) (supply : Supply) (event : Event) :
    (s.act supply event).Progresses := by
  obtain ⟨hstepping, hreleasing⟩ := periods_act supply s event
  exact ⟨hstepping ▸ h.stepping_pos, hreleasing ▸ h.releasing_pos⟩

theorem Progresses.now_lt_round (h : s.Progresses) (hidles : s.idles supply = true) :
    s.clock.now < (s.round supply).state.clock.now := by
  have hahead := now_lt_deadline_round h.stepping_pos h.releasing_pos supply
  rw [clock_round_of_idles hidles]
  exact Nat.lt_of_lt_of_le hahead (Nat.le_max_right _ _)

/-- One of the two metronomes of a run loop: a round strikes its beat, and what happens between
rounds leaves it alone. -/
structure Beats (supply : Supply) (metronome : RunLoop δ LogicalClock → Metronome) : Prop where
  round_eq : ∀ s, metronome (s.round supply).state = (metronome s).beat s.clock.now
  inbound_eq : ∀ s inbound, metronome { s with inbound := inbound } = metronome s

theorem beats_stepping (supply : Supply) :
    Beats supply fun u : RunLoop δ LogicalClock => u.stepping :=
  ⟨fun u => (metronomes_round supply u).1, fun _ _ => rfl⟩

theorem beats_releasing (supply : Supply) :
    Beats supply fun u : RunLoop δ LogicalClock => u.releasing :=
  ⟨fun u => (metronomes_round supply u).2, fun _ _ => rfl⟩

variable {metronome : RunLoop δ LogicalClock → Metronome}

/-- Every idle round that leaves a beat to come uses up some of the time until then, so the beat
comes before there have been more of them than nanoseconds. -/
theorem Progresses.beats_after_idling (h : s.Progresses) (hbeats : Beats supply metronome)
    {events : List Event}
    (hidling : (metronome s).next - s.clock.now < (s.rounds supply events).countP (idles supply)) :
    ∃ u ∈ s.rounds supply events, (metronome u).isDue u.clock.now = true := by
  induction events generalizing s with
  | nil => exact absurd hidling (Nat.not_lt_zero _)
  | cons event events ih =>
    have hrest := ih (progresses_act h supply event)
    cases event with
    | offer signal =>
      rw [act, hbeats.inbound_eq] at hrest
      exact hrest hidling
    | hangUp =>
      rw [act, hbeats.inbound_eq] at hrest
      exact hrest hidling
    | round =>
      rw [rounds] at hidling ⊢
      cases hdue : (metronome s).isDue s.clock.now with
      | true => exact ⟨s, List.mem_cons_self, hdue⟩
      | false =>
        -- the beat is still to come at the same time, of which an idle round has used some up
        have hahead := Metronome.lt_next_of_not_due hdue
        rw [act, hbeats.round_eq, Metronome.beat_of_not_due hdue] at hrest
        have hlater : (metronome s).next - (s.round supply).state.clock.now <
            ((s.act supply .round).rounds supply events).countP (idles supply) := by
          rw [List.countP_cons] at hidling
          cases hidles : s.idles supply with
          | true =>
            have hpassed := h.now_lt_round hidles
            rw [hidles, if_pos rfl] at hidling
            omega
          | false =>
            have hpassed : s.clock.now ≤ (s.round supply).state.clock.now :=
              now_le_act supply s .round
            rw [hidles, if_neg Bool.false_ne_true] at hidling
            omega
        obtain ⟨u, hu, hbeat⟩ := hrest hlater
        exact ⟨u, List.mem_cons_of_mem s hu, hbeat⟩

theorem frozen_round (h : s.Frozen now) (supply : Supply) : (s.round supply).state.Frozen now := by
  obtain ⟨rfl, hstopped, -, -⟩ := h
  obtain ⟨hstepping, hreleasing⟩ := metronomes_round supply s
  have hstopped' :
      ((s.round supply).state.stepping.period = 0 ∧
        (s.round supply).state.stepping.next ≤ s.clock.now) ∨
      ((s.round supply).state.releasing.period = 0 ∧
        (s.round supply).state.releasing.next ≤ s.clock.now) := by
    rw [hstepping, hreleasing, Metronome.period_beat, Metronome.period_beat]
    rcases hstopped with ⟨hperiod, hnext⟩ | ⟨hperiod, hnext⟩
    · exact .inl ⟨hperiod, Metronome.next_beat_le hperiod hnext⟩
    · exact .inr ⟨hperiod, Metronome.next_beat_le hperiod hnext⟩
  refine ⟨?_, hstopped', ?_, ?_⟩
  · have hdeadline : (s.round supply).state.deadline ≤ s.clock.now := by
      rw [deadline]
      omega
    rcases clock_round supply s with hclock | hclock
    · rw [hclock]
    · rw [hclock]
      exact Nat.max_eq_left hdeadline
  · rw [hstepping, Metronome.period_beat]
    exact fun hperiod => Metronome.lt_next_beat hperiod _
  · rw [hreleasing, Metronome.period_beat]
    exact fun hperiod => Metronome.lt_next_beat hperiod _

theorem frozen_act (h : s.Frozen now) (supply : Supply) (event : Event) :
    (s.act supply event).Frozen now := by
  cases event with
  | offer signal => exact ⟨h.now_eq, h.stopped, h.stepping_ahead, h.releasing_ahead⟩
  | hangUp => exact ⟨h.now_eq, h.stopped, h.stepping_ahead, h.releasing_ahead⟩
  | round => exact frozen_round h supply

section

variable {rates : Rates} (machine : Machine) (display : δ) (inbound : Mailbox Signal) (origin : Nat)
  (supply : Supply) (events : List Event)

theorem stepping_pos_after (h : rates.stepHz ≤ 1000000000) :
    0 < ((start machine display inbound (LogicalClock.mk origin) rates).after supply
      events).stepping.period := by
  rw [(periods_after supply _ events).1]
  exact Metronome.period_ofRate_pos h origin

theorem releasing_pos_after (h : rates.resetHz ≤ 1000000000) :
    0 < ((start machine display inbound (LogicalClock.mk origin) rates).after supply
      events).releasing.period := by
  rw [(periods_after supply _ events).2]
  exact Metronome.period_ofRate_pos h origin

theorem frozen_after (h : 1000000000 < rates.stepHz ∨ 1000000000 < rates.resetHz) :
    ((start machine display inbound (LogicalClock.mk origin) rates).after supply events).Frozen
      origin := by
  have hkeeps : ∀ (u : RunLoop δ LogicalClock) event, u.Frozen origin →
      (u.act supply event).Frozen origin := fun _ event hu => frozen_act hu supply event
  exact after_induction hkeeps _ events (frozen_start h machine display inbound origin)

end

/-- A run loop started at `origin` on a logical clock, to which anything happens in any order. A
round that finds no signal and goes on lets time pass just when both rates leave a nanosecond to
each beat. Then either metronome beats in any further history with more idle rounds than there are
nanoseconds to its next beat. If one of the rates is higher than that, it is `origin` for ever, and
the other metronome never beats. -/
theorem time_passes_iff_beats_apart {δ : Type} [Display δ] (supply : Supply) (machine : Machine)
    (display : δ) (inbound : Mailbox Signal) (origin : Nat) (rates : Rates) (events : List Event) :
    let begun := start machine display inbound (LogicalClock.mk origin) rates
    let s := begun.after supply events
    (s.inbound.waiting = [] → (s.round supply).result = .ok .proceed →
        (s.clock.now < (s.round supply).state.clock.now ↔
          rates.stepHz ≤ 1000000000 ∧ rates.resetHz ≤ 1000000000)) ∧
      (rates.stepHz ≤ 1000000000 → rates.resetHz ≤ 1000000000 → ∀ later,
        (s.stepping.next - s.clock.now < (s.rounds supply later).countP (idles supply) →
          ∃ u ∈ s.rounds supply later, u.stepping.isDue u.clock.now = true) ∧
        (s.releasing.next - s.clock.now < (s.rounds supply later).countP (idles supply) →
          ∃ u ∈ s.rounds supply later, u.releasing.isDue u.clock.now = true)) ∧
      (1000000000 < rates.stepHz ∨ 1000000000 < rates.resetHz →
        s.clock.now = origin ∧
          (rates.stepHz ≤ 1000000000 → s.stepping.isDue origin = false) ∧
          (rates.resetHz ≤ 1000000000 → s.releasing.isDue origin = false)) := by
  intro begun s
  have hprogresses : rates.stepHz ≤ 1000000000 → rates.resetHz ≤ 1000000000 → s.Progresses :=
    fun hstep hreset => ⟨stepping_pos_after machine display inbound origin supply events hstep,
      releasing_pos_after machine display inbound origin supply events hreset⟩
  have hfrozen : 1000000000 < rates.stepHz ∨ 1000000000 < rates.resetHz → s.Frozen origin :=
    frozen_after machine display inbound origin supply events
  refine ⟨?_, ?_, ?_⟩
  · intro hnone hproceed
    constructor
    · intro hpassed
      by_cases h : 1000000000 < rates.stepHz ∨ 1000000000 < rates.resetHz
      · have hbefore := (hfrozen h).now_eq
        have hafter := (frozen_round (hfrozen h) supply).now_eq
        omega
      · omega
    · rintro ⟨hstep, hreset⟩
      exact (hprogresses hstep hreset).now_lt_round (idles_iff.mpr ⟨hnone, hproceed⟩)
  · intro hstep hreset later
    exact ⟨(hprogresses hstep hreset).beats_after_idling (beats_stepping supply),
      (hprogresses hstep hreset).beats_after_idling (beats_releasing supply)⟩
  · intro h
    have hstill := hfrozen h
    refine ⟨hstill.now_eq, fun hstep => ?_, fun hreset => ?_⟩
    · have hpos := stepping_pos_after machine display inbound origin supply events hstep
      exact decide_eq_false (Nat.not_le.mpr (hstill.stepping_ahead hpos))
    · have hpos := releasing_pos_after machine display inbound origin supply events hreset
      exact decide_eq_false (Nat.not_le.mpr (hstill.releasing_ahead hpos))

/-- A step in every nanosecond, which is the highest rate that lets time pass. -/
theorem time_passes_at_highest_rate :
    let supply : Supply := ⟨fun _ => 0, Supply.heldKey⟩
    let begun : RunLoop Recorder LogicalClock :=
      start (Machine.initial.install [0x12, 0x00]).state Recorder.new
        (Mailbox.new (some inputCapacity) false) ⟨0⟩ ⟨1000000000, 6⟩
    begun.idles supply = true ∧ begun.clock.now < (begun.round supply).state.clock.now ∧
      ∃ u ∈ begun.rounds supply [.round, .round], u.stepping.isDue u.clock.now = true := by
  intro supply begun
  have hidles : begun.idles supply = true := by decide +kernel
  have hidling : begun.stepping.next - begun.clock.now <
      (begun.rounds supply [.round, .round]).countP (idles supply) := by decide +kernel
  obtain ⟨hnone, hproceed⟩ := idles_iff.mp hidles
  subst begun
  obtain ⟨hpasses, hbeats, -⟩ := time_passes_iff_beats_apart supply
    (Machine.initial.install [0x12, 0x00]).state Recorder.new
    (Mailbox.new (some inputCapacity) false) 0 ⟨1000000000, 6⟩ []
  exact ⟨hidles, (hpasses hnone hproceed).mpr (by decide),
    (hbeats (by decide) (by decide) [.round, .round]).1 hidling⟩

/-- With one step more in a second no time passes in an idle round, and the keys are never
released. -/
theorem time_stands_still_above_highest_rate :
    let supply : Supply := ⟨fun _ => 0, Supply.heldKey⟩
    let begun : RunLoop Recorder LogicalClock :=
      start (Machine.initial.install [0x12, 0x00]).state Recorder.new
        (Mailbox.new (some inputCapacity) false) ⟨0⟩ ⟨1000000001, 6⟩
    begun.idles supply = true ∧ (begun.round supply).state.clock.now = begun.clock.now ∧
      ∀ events, ∀ u ∈ begun.rounds supply events, u.releasing.isDue u.clock.now = false := by
  intro supply begun
  have hbegun : begun.Frozen 0 := frozen_start (.inl (by decide)) _ _ _ 0
  refine ⟨by decide +kernel, (frozen_round hbegun supply).now_eq.trans hbegun.now_eq.symm, ?_⟩
  intro events u hu
  have hkeeps : ∀ (v : RunLoop Recorder LogicalClock) event,
      v.Frozen 0 ∧ 0 < v.releasing.period →
        (v.act supply event).Frozen 0 ∧ 0 < (v.act supply event).releasing.period := by
    rintro v event ⟨hv, hperiod⟩
    rw [(periods_act supply v event).2]
    exact ⟨frozen_act hv supply event, hperiod⟩
  obtain ⟨hstill, hperiod⟩ :=
    rounds_induction hkeeps begun events ⟨hbegun, by decide⟩ u hu
  rw [hstill.now_eq]
  exact decide_eq_false (Nat.not_le.mpr (hstill.releasing_ahead hperiod))

end Chip8.RunLoop
