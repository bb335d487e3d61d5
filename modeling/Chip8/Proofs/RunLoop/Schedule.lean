import Chip8.Display
import Chip8.Proofs.RunLoop.Operations
import Chip8.Proofs.Time.Beats

/-!
# Steps and releases come on schedule

On a logical clock time stands still but for waits, and a wait never passes the earlier of the two
deadlines. So no beat is ever asked for late: the machine steps at every whole number of its periods
after the start, and releases its keys at every whole number of theirs, whatever signals arrive in
between and whether or not rounds fail. `OnSchedule` is the invariant of a history. Clocks that wait
too long are not covered.
-/
namespace Chip8.RunLoop

variable {δ : Type}

/-- The times at which an operation was carried out. -/
def timesOf (op : Operation) (done : List (Nat × Operation)) : List Nat :=
  (done.filter fun d => d.2 == op).map Prod.fst

theorem timesOf_append (op : Operation) (done more : List (Nat × Operation)) :
    timesOf op (done ++ more) = timesOf op done ++ timesOf op more := by
  rw [timesOf, List.filter_append, List.map_append]
  rfl

theorem timesOf_of_absent {op : Operation} {ops : List Operation} (h : op ∉ ops) (now : Nat) :
    timesOf op (ops.map fun o => (now, o)) = [] := by
  have hnone : (ops.map fun o => (now, o)).filter (fun d => d.2 == op) = [] := by
    apply List.filter_eq_nil_iff.mpr
    intro d hd
    obtain ⟨o, ho, rfl⟩ := List.mem_map.mp hd
    intro heq
    exact h (eq_of_beq heq ▸ ho)
  rw [timesOf, hnone]
  rfl

section

variable [Display δ] {κ : Type} [Clock κ]

theorem timesOf_timed (supply : Supply) (s : RunLoop δ κ) :
    timesOf .step (s.timed supply) =
        (if s.stepping.isDue (Clock.now s.clock) then [Clock.now s.clock] else []) ∧
      timesOf .releaseKeys (s.timed supply) =
        (if s.releasing.isDue (Clock.now s.clock) then [Clock.now s.clock] else []) := by
  obtain ⟨rest, hops, hrest⟩ := operations_eq supply s
  have hstep : .step ∉ rest := fun h => (hrest _ h).1 rfl
  have hrelease : .releaseKeys ∉ rest := fun h => (hrest _ h).2 rfl
  rw [timed, hops, List.map_append, timesOf_append, timesOf_append, timesOf_of_absent hstep,
    timesOf_of_absent hrelease, List.append_nil, List.append_nil, duties]
  cases s.releasing.isDue (Clock.now s.clock) <;> cases s.stepping.isDue (Clock.now s.clock) <;>
    exact ⟨rfl, rfl⟩

theorem mem_timed {supply : Supply} {s : RunLoop δ κ} {time : Nat} {op : Operation}
    (h : (time, op) ∈ s.timed supply) : time = Clock.now s.clock ∧ op ∈ s.operations supply := by
  obtain ⟨op', hop, heq⟩ := List.mem_map.mp h
  obtain ⟨rfl, rfl⟩ := Prod.mk.inj heq
  exact ⟨rfl, hop⟩

/-- A release that falls on a step comes right before it. -/
theorem prefix_timed {supply : Supply} {s : RunLoop δ κ} (hstep : .step ∈ s.operations supply)
    (hrelease : .releaseKeys ∈ s.operations supply) :
    [(Clock.now s.clock, .releaseKeys), (Clock.now s.clock, .step)] <+: s.timed supply := by
  obtain ⟨hstep_iff, hrelease_iff⟩ := mem_operations_iff supply s
  obtain ⟨rest, hops, -⟩ := operations_eq supply s
  refine ⟨rest.map fun op => (Clock.now s.clock, op), ?_⟩
  rw [timed, hops, List.map_append, duties, if_pos (hstep_iff.mp hstep),
    if_pos (hrelease_iff.mp hrelease)]
  rfl

end

/-- What has been done by the time at which `s` stands: steps and releases at the times of their
beats, and each release before the step of the same time. What was done at this very time has been
followed by the beats that were due, so that nothing is due any more. -/
structure OnSchedule (origin p q : Nat) (done : List (Nat × Operation))
    (s : RunLoop δ LogicalClock) : Prop where
  steps : s.stepping.Struck origin p (timesOf .step done) s.clock.now
  releases : s.releasing.Struck origin q (timesOf .releaseKeys done) s.clock.now
  past : ∀ d ∈ done, d.1 ≤ s.clock.now ∧ (d.1 = s.clock.now → s.clock.now < s.deadline)
  release_first : ∀ time, (time, .releaseKeys) ∈ done → (time, .step) ∈ done →
    [(time, .releaseKeys), (time, .step)] <:+: done

theorem onSchedule_start (machine : Machine) (display : δ) (inbound : Mailbox Signal)
    (origin : Nat) (rates : Rates) :
    (start machine display inbound (LogicalClock.mk origin) rates).OnSchedule origin
      (Metronome.ofRate rates.stepHz origin).period (Metronome.ofRate rates.resetHz origin).period
      [] where
  steps := Metronome.struck_ofRate _ _
  releases := Metronome.struck_ofRate _ _
  past := by simp
  release_first := by simp

variable [Display δ] {origin p q : Nat} {done : List (Nat × Operation)}
  {s : RunLoop δ LogicalClock}

/-- What a round does strikes the beats that are due and no others. -/
theorem OnSchedule.struck_timed (h : s.OnSchedule origin p q done) (supply : Supply) :
    (s.stepping.beat s.clock.now).Struck origin p (timesOf .step (done ++ s.timed supply))
        s.clock.now ∧
      (s.releasing.beat s.clock.now).Struck origin q
        (timesOf .releaseKeys (done ++ s.timed supply)) s.clock.now := by
  obtain ⟨hstep, hrelease⟩ := timesOf_timed supply s
  rw [timesOf_append, timesOf_append, hstep, hrelease]
  exact ⟨h.steps.beat, h.releases.beat⟩

/-- Of a step and a release at one time, neither was done before the round that does the other. -/
theorem OnSchedule.release_first_timed (h : s.OnSchedule origin p q done) (supply : Supply)
    (time : Nat) (hrelease : (time, .releaseKeys) ∈ done ++ s.timed supply)
    (hstep : (time, .step) ∈ done ++ s.timed supply) :
    [(time, .releaseKeys), (time, .step)] <:+: done ++ s.timed supply := by
  obtain ⟨hstep_iff, hrelease_iff⟩ := mem_operations_iff supply s
  -- whatever was done at the time of this round leaves nothing due
  have hquiet : ∀ op, (time, op) ∈ done → time = s.clock.now →
      s.stepping.isDue s.clock.now = false ∧ s.releasing.isDue s.clock.now = false := by
    intro op hop htime
    have hlt := (h.past _ hop).2 htime
    rw [deadline] at hlt
    constructor
    · exact decide_eq_false (by omega)
    · exact decide_eq_false (by omega)
  rcases List.mem_append.mp hrelease with hrelease | hrelease <;>
    rcases List.mem_append.mp hstep with hstep | hstep
  · exact (h.release_first time hrelease hstep).trans (List.infix_append' [] done _)
  · obtain ⟨htime, hop⟩ := mem_timed hstep
    have hdue := hstep_iff.mp hop
    have hnot := (hquiet _ hrelease htime).1
    exact Bool.noConfusion (hdue.symm.trans hnot)
  · obtain ⟨htime, hop⟩ := mem_timed hrelease
    have hdue := hrelease_iff.mp hop
    have hnot := (hquiet _ hstep htime).2
    exact Bool.noConfusion (hdue.symm.trans hnot)
  · obtain ⟨rfl, hop⟩ := mem_timed hrelease
    exact ((prefix_timed (mem_timed hstep).2 hop).isInfix).trans (List.suffix_append _ _).isInfix

/-- A round leaves the next beats ahead of the time at which it began. -/
theorem now_lt_deadline_round (hstepping : 0 < s.stepping.period)
    (hreleasing : 0 < s.releasing.period) (supply : Supply) :
    s.clock.now < (s.round supply).state.deadline := by
  obtain ⟨hstep, hrelease⟩ := metronomes_round supply s
  rw [deadline, hstep, hrelease]
  exact Nat.lt_min.mpr
    ⟨Metronome.lt_next_beat hstepping _, Metronome.lt_next_beat hreleasing _⟩

theorem now_round_le_deadline (hstepping : 0 < s.stepping.period)
    (hreleasing : 0 < s.releasing.period) (supply : Supply) :
    (s.round supply).state.clock.now ≤ (s.round supply).state.deadline := by
  have hle := Nat.le_of_lt (now_lt_deadline_round hstepping hreleasing supply)
  rcases clock_round supply s with hclock | hclock
  · rw [hclock]
    exact hle
  · have hnow := congrArg LogicalClock.now hclock
    exact Nat.le_of_eq (hnow.trans (LogicalClock.now_advanceTo_of_le _ hle))

theorem onSchedule_round (h : s.OnSchedule origin p q done) (hp : 0 < p) (hq : 0 < q)
    (supply : Supply) :
    (s.round supply).state.OnSchedule origin p q (done ++ s.timed supply) := by
  have hstepping : 0 < s.stepping.period := Nat.lt_of_lt_of_eq hp h.steps.period_eq.symm
  have hreleasing : 0 < s.releasing.period := Nat.lt_of_lt_of_eq hq h.releases.period_eq.symm
  have hahead := now_lt_deadline_round hstepping hreleasing supply
  have hle := now_round_le_deadline hstepping hreleasing supply
  have hlater : s.clock.now ≤ (s.round supply).state.clock.now := now_le_act supply s .round
  obtain ⟨hstep, hrelease⟩ := metronomes_round supply s
  obtain ⟨hsteps, hreleases⟩ := h.struck_timed supply
  constructor
  · have hnext : (s.round supply).state.clock.now ≤ (s.round supply).state.stepping.next :=
      Nat.le_trans hle (Nat.min_le_left _ _)
    rw [hstep] at hnext ⊢
    exact hsteps.later hlater hnext
  · have hnext : (s.round supply).state.clock.now ≤ (s.round supply).state.releasing.next :=
      Nat.le_trans hle (Nat.min_le_right _ _)
    rw [hrelease] at hnext ⊢
    exact hreleases.later hlater hnext
  · intro d hd
    have hpast : d.1 ≤ s.clock.now := by
      rcases List.mem_append.mp hd with hd | hd
      · exact (h.past d hd).1
      · exact Nat.le_of_eq (mem_timed hd).1
    exact ⟨Nat.le_trans hpast hlater, fun heq => by omega⟩
  · exact h.release_first_timed supply

theorem onSchedule_after (h : s.OnSchedule origin p q done) (hp : 0 < p) (hq : 0 < q)
    (supply : Supply) (events : List Event) :
    (s.after supply events).OnSchedule origin p q (done ++ s.chronicle supply events) := by
  induction events generalizing s done with
  | nil =>
    rw [chronicle, rounds, List.flatMap_nil, List.append_nil]
    exact h
  | cons event events ih =>
    cases event with
    | offer signal => exact ih ⟨h.steps, h.releases, h.past, h.release_first⟩
    | hangUp => exact ih ⟨h.steps, h.releases, h.past, h.release_first⟩
    | round =>
      rw [chronicle_round, ← List.append_assoc]
      exact ih (onSchedule_round h hp hq supply)

/-- A run loop started at `s` on a logical clock, with periods of at least a nanosecond, to which
anything happens in any order. After a round that began at `t` the machine has stepped at the whole
numbers of its periods that have passed between `s` and `t`, and at no other times, and likewise its
keys have been released; a release that falls on a step comes right before it; and these operations
are part of those that have made the machine what it is. -/
theorem steps_and_releases_on_time {δ : Type} [Display δ] (supply : Supply) (machine : Machine)
    (display : δ) (inbound : Mailbox Signal) (s : Nat) (rates : Rates) (events : List Event)
    (hstep : 1 ≤ rates.stepHz ∧ rates.stepHz ≤ 1000000000)
    (hreset : 1 ≤ rates.resetHz ∧ rates.resetHz ≤ 1000000000) :
    let begun := start machine display inbound (LogicalClock.mk s) rates
    let p := 1000000000 / rates.stepHz
    let q := 1000000000 / rates.resetHz
    let t := (begun.after supply events).clock.now
    let done := begun.chronicle supply (events ++ [.round])
    timesOf .step done = Metronome.beats s p ((t - s) / p) ∧
      timesOf .releaseKeys done = Metronome.beats s q ((t - s) / q) ∧
      (∀ time, (time, .releaseKeys) ∈ done → (time, .step) ∈ done →
        [(time, .releaseKeys), (time, .step)] <:+: done) ∧
      (begun.after supply (events ++ [.round])).machine =
        machine.run supply (done.map Prod.snd) := by
  intro begun p q t done
  have hp : 0 < p := Nat.div_pos hstep.2 hstep.1
  have hq : 0 < q := Nat.div_pos hreset.2 hreset.1
  have hbegun : begun.OnSchedule s p q [] := by
    have hstart := onSchedule_start machine display inbound s rates
    rw [Metronome.period_ofRate hstep.1, Metronome.period_ofRate hreset.1] at hstart
    exact hstart
  have hbefore := onSchedule_after hbegun hp hq supply events
  have hdone : done = begun.chronicle supply events ++ (begun.after supply events).timed supply := by
    show begun.chronicle supply (events ++ [.round]) = _
    rw [chronicle_append, chronicle_round]
    exact congrArg _ (List.append_nil _)
  obtain ⟨hsteps, hreleases⟩ := hbefore.struck_timed supply
  rw [List.nil_append, ← hdone] at hsteps hreleases
  have hstep_next : t < ((begun.after supply events).stepping.beat t).next :=
    Metronome.lt_next_beat (by rw [hbefore.steps.period_eq]; exact hp) t
  have hrelease_next : t < ((begun.after supply events).releasing.beat t).next :=
    Metronome.lt_next_beat (by rw [hbefore.releases.period_eq]; exact hq) t
  refine ⟨hsteps.times_eq_of_lt hstep_next, hreleases.times_eq_of_lt hrelease_next, ?_, ?_⟩
  · intro time hrelease hstep
    rw [hdone] at hrelease hstep ⊢
    exact hbefore.release_first_timed supply time hrelease hstep
  · exact machine_after supply begun (events ++ [.round])

/-- Twice as many steps as releases, and a key in between. -/
theorem steps_and_releases_on_time_coinciding :
    let supply : Supply := ⟨fun _ => 0, Supply.heldKey⟩
    let begun : RunLoop Recorder LogicalClock :=
      start (Machine.initial.install [0x12, 0x00]).state Recorder.new
        (Mailbox.new (some inputCapacity) false) ⟨0⟩ ⟨100, 50⟩
    let events := [.round, .offer (.key 5), .round, .round]
    let done := begun.chronicle supply (events ++ [.round])
    (begun.after supply events).clock.now = 20000000 ∧
      timesOf .step done = [10000000, 20000000] ∧ timesOf .releaseKeys done = [20000000] ∧
      [(20000000, .releaseKeys), (20000000, .step)] <:+: done := by
  intro supply begun events done
  have hnow : (begun.after supply events).clock.now = 20000000 := by decide +kernel
  have hrelease : (20000000, .releaseKeys) ∈ done := by decide +kernel
  have hstep : (20000000, .step) ∈ done := by decide +kernel
  subst done begun
  obtain ⟨hsteps, hreleases, hfirst, -⟩ := steps_and_releases_on_time supply
    (Machine.initial.install [0x12, 0x00]).state Recorder.new
    (Mailbox.new (some inputCapacity) false) 0 ⟨100, 50⟩ events (by decide) (by decide)
  rw [hnow] at hsteps hreleases
  exact ⟨hnow, hsteps, hreleases, hfirst 20000000 hrelease hstep⟩

end Chip8.RunLoop
