import Chip8.Proofs.Time.Strikes

/-!
# Metronomes that keep their rate

A metronome that is never asked later than its next beat strikes every beat at its time, however
often it is asked in between and in whatever order. From the times follows how many beats a span
holds. The period is rounded down, so these may be more than the rate says; `second_div_period` says
for which rates a second has no beat too many. That a beat is asked for at all is a hypothesis here.
-/
namespace Chip8.Metronome

/-- No question comes later than the beat that is next by then. -/
def Punctual (answers : List Answer) : Prop := ∀ a ∈ answers, a.now ≤ a.due

instance (answers : List Answer) : Decidable (Punctual answers) :=
  inferInstanceAs (Decidable (∀ a ∈ answers, a.now ≤ a.due))

/-- Each time up to `time` at which a beat was ever due is the time of a question. -/
def HitsUntil (t : Metronome) (answers : List Answer) (time : Nat) : Prop :=
  ∀ due ∈ t.next :: answers.map (fun a => a.next), due ≤ time → due ∈ answers.map fun a => a.now

instance (t : Metronome) (answers : List Answer) (time : Nat) :
    Decidable (t.HitsUntil answers time) :=
  inferInstanceAs (Decidable (∀ due ∈ t.next :: answers.map (fun a => a.next), due ≤ time →
    due ∈ answers.map fun a => a.now))

/-- A metronome of `hz` beats a second strikes them at their times, and as many as it should. -/
structure KeepsRate (hz start : Nat) (t : Metronome) (answers : List Answer) : Prop where
  period_eq : t.period = 1000000000 / hz
  /-- Beats are counted from 0, and the first comes a period after the start. -/
  on_time : ∀ k time, (struckAt answers)[k]? = some time → time = start + (k + 1) * t.period
  /-- There are as many beats in a span as it has whole periods. -/
  count_eq : ∀ span, t.HitsUntil answers (start + span) →
    (struckAt answers).countP (· ≤ start + span) = span / t.period
  /-- They fall short of the rate by less than one beat. -/
  nearly : ∀ span, t.HitsUntil answers (start + span) →
    hz * span < ((struckAt answers).countP (· ≤ start + span) + 1) * 1000000000
  /-- In whole seconds there are no fewer than the rate says. -/
  not_fewer : ∀ seconds, t.HitsUntil answers (start + seconds * 1000000000) →
    hz * seconds ≤ (struckAt answers).countP (· ≤ start + seconds * 1000000000)
  /-- In the first second there are just as many, unless the rate is too high for its rounding. -/
  first_second : hz * hz ≤ 1000000000 → t.HitsUntil answers (start + 1000000000) →
    (struckAt answers).countP (· ≤ start + 1000000000) = hz

variable {t : Metronome} {asked later : List Nat} {hz start period now time : Nat}

theorem next_beat_of_not_late (hdue : t.isDue now = true) (hnow : now ≤ t.next) :
    now = t.next ∧ (t.beat now).next = t.next + t.period := by
  have hat : now = t.next := Nat.le_antisymm hnow (of_decide_eq_true hdue)
  exact ⟨hat, by rw [next_beat_of_due hdue, hat, ite_self]⟩

theorem punctual_cons : Punctual (t.answers (now :: later)) ↔
    now ≤ t.next ∧ Punctual ((t.beat now).answers later) :=
  List.forall_mem_cons

/-- Each beat that is struck moves the next one on by just a period. -/
theorem next_askedAt (h : Punctual (t.answers asked)) :
    (t.askedAt asked).next = t.next + (t.strikes asked).length * t.period := by
  induction asked generalizing t with
  | nil => exact (Nat.add_eq_left.mpr (Nat.zero_mul _)).symm
  | cons now later ih =>
    obtain ⟨hnow, hlater⟩ := punctual_cons.mp h
    have hrest : (t.askedAt (now :: later)).next =
        (t.beat now).next + ((t.beat now).strikes later).length * (t.beat now).period := ih hlater
    cases hdue : t.isDue now with
    | false =>
      rw [hrest, strikes_of_not_due hdue, beat_of_not_due hdue]
    | true =>
      obtain ⟨-, hbeat⟩ := next_beat_of_not_late hdue hnow
      rw [hrest, strikes_of_due hdue, hbeat, period_beat, List.length_cons, Nat.succ_mul]
      omega

/-- The `k`-th beat, counted from 0, comes just `k` periods after the first. -/
theorem time_of_strike {k : Nat} (h : Punctual (t.answers asked))
    (hk : (t.strikes asked)[k]? = some time) :
    time = t.next + k * t.period := by
  induction asked generalizing t k with
  | nil => contradiction
  | cons now later ih =>
    obtain ⟨hnow, hlater⟩ := punctual_cons.mp h
    cases hdue : t.isDue now with
    | false =>
      rw [strikes_of_not_due hdue] at hk
      rw [beat_of_not_due hdue] at hlater
      exact ih hlater hk
    | true =>
      obtain ⟨hat, hbeat⟩ := next_beat_of_not_late hdue hnow
      rw [strikes_of_due hdue] at hk
      cases k with
      | zero =>
        obtain rfl : now = time := Option.some.inj hk
        rw [Nat.zero_mul]
        exact hat
      | succ k =>
        have hrest := ih hlater hk
        rw [hbeat, period_beat] at hrest
        rw [hrest, Nat.succ_mul]
        omega

theorem strikes_eq_beats (h : Punctual (t.answers asked)) (hnext : t.next = start + t.period) :
    t.strikes asked = beats start t.period (t.strikes asked).length := by
  apply List.ext_getElem
  · rw [beats, List.length_map, List.length_range]
  · intro k hk _
    have htime := time_of_strike h (List.getElem?_eq_getElem hk)
    simp only [beats, List.getElem_map, List.getElem_range]
    rw [htime, hnext, Nat.succ_mul]
    omega

theorem next_askedAt_mem (t : Metronome) (asked : List Nat) :
    (t.askedAt asked).next ∈ t.next :: (t.answers asked).map fun a => a.next := by
  induction asked generalizing t with
  | nil => exact List.mem_cons_self
  | cons now later ih => exact List.mem_cons_of_mem _ (ih (t.beat now))

/-- Whatever was asked, the next beat is later than all of it. -/
theorem now_lt_next_askedAt (hperiod : 0 < t.period) {a : Answer} (ha : a ∈ t.answers asked) :
    a.now < (t.askedAt asked).next := by
  obtain ⟨earlier, now, later, rfl, rfl⟩ := exists_of_mem_answers ha
  rw [askedAt_append]
  calc now
      < ((t.askedAt earlier).beat now).next := lt_next_beat (by rwa [period_askedAt]) now
    _ ≤ ((t.askedAt earlier).askedAt (now :: later)).next := next_le_askedAt _ later

/-- A beat that is next at some time and not any more at the end was hit. -/
theorem due_mem_of_lt (h : Punctual (t.answers asked)) {due : Nat}
    (hmem : due ∈ t.next :: (t.answers asked).map fun a => a.next)
    (hlt : due < (t.askedAt asked).next) : due ∈ (t.answers asked).map fun a => a.now := by
  induction asked generalizing t with
  | nil =>
    obtain rfl := List.mem_singleton.mp hmem
    exact absurd hlt (Nat.lt_irrefl _)
  | cons now later ih =>
    obtain ⟨hnow, hlater⟩ := punctual_cons.mp h
    rcases List.mem_cons.mp hmem with rfl | hlast
    · cases hdue : t.isDue now with
      | true =>
        obtain ⟨hat, -⟩ := next_beat_of_not_late hdue hnow
        exact hat ▸ List.mem_cons_self
      | false =>
        have hsame : t.next = (t.beat now).next := by rw [beat_of_not_due hdue]
        exact List.mem_cons_of_mem _ (ih hlater (hsame ▸ List.mem_cons_self) hlt)
    · exact List.mem_cons_of_mem _ (ih hlater hlast hlt)

/-- All beats up to some time are hit just if the next one comes after it. -/
theorem hitsUntil_iff (h : Punctual (t.answers asked)) (hperiod : 0 < t.period) :
    t.HitsUntil (t.answers asked) time ↔ time < (t.askedAt asked).next := by
  constructor
  · intro hhits
    refine Nat.lt_of_not_le fun hle => ?_
    obtain ⟨a, ha, hnow⟩ := List.mem_map.mp (hhits _ (next_askedAt_mem t asked) hle)
    exact Nat.ne_of_lt (now_lt_next_askedAt hperiod ha) hnow
  · intro hlt due hmem hle
    exact due_mem_of_lt h hmem (Nat.lt_of_le_of_lt hle hlt)

theorem countP_beats (hperiod : 0 < period) (start span count : Nat) :
    (beats start period count).countP (· ≤ start + span) = min count (span / period) := by
  induction count with
  | zero => exact (Nat.zero_min _).symm
  | succ count ih =>
    have hcounted : start + (count + 1) * period ≤ start + span ↔ count + 1 ≤ span / period := by
      rw [Nat.add_le_add_iff_left, Nat.le_div_iff_mul_le hperiod]
    rw [beats_succ, List.countP_append, ih, List.countP_singleton]
    simp only [decide_eq_true_eq, hcounted]
    split <;> omega

theorem countP_strikes_of_hitsUntil {span : Nat} (h : Punctual (t.answers asked))
    (hperiod : 0 < t.period) (hnext : t.next = start + t.period)
    (hhits : t.HitsUntil (t.answers asked) (start + span)) :
    (t.strikes asked).countP (· ≤ start + span) = span / t.period := by
  have hlt := (hitsUntil_iff h hperiod).mp hhits
  rw [next_askedAt h, hnext, Nat.add_assoc, Nat.add_lt_add_iff_left, Nat.add_comm,
    ← Nat.succ_mul, ← Nat.div_lt_iff_lt_mul hperiod] at hlt
  rw [strikes_eq_beats h hnext, countP_beats hperiod]
  exact Nat.min_eq_right (Nat.le_of_lt_succ hlt)

theorem rate_mul_lt (hpos : 1 ≤ hz) (hperiod : 0 < 1000000000 / hz) (span : Nat) :
    hz * span < (span / (1000000000 / hz) + 1) * 1000000000 := by
  calc hz * span
      < hz * (1000000000 / hz * (span / (1000000000 / hz) + 1)) :=
        Nat.mul_lt_mul_of_pos_left (Nat.lt_mul_div_succ span hperiod) hpos
    _ = hz * (1000000000 / hz) * (span / (1000000000 / hz) + 1) := (Nat.mul_assoc _ _ _).symm
    _ ≤ 1000000000 * (span / (1000000000 / hz) + 1) :=
        Nat.mul_le_mul_right _ (Nat.mul_div_le 1000000000 hz)
    _ = (span / (1000000000 / hz) + 1) * 1000000000 := Nat.mul_comm _ _

/-- A second has a period left over only if the rounding cost each of its beats so much that it adds
up to a period; that takes more beats than the period has nanoseconds. -/
theorem second_div_period (hpos : 1 ≤ hz) (hrate : hz * hz ≤ 1000000000) :
    1000000000 / (1000000000 / hz) = hz := by
  have hle : hz ≤ 1000000000 / hz := (Nat.le_div_iff_mul_le hpos).mpr hrate
  have hrest : 1000000000 < hz * (1000000000 / hz) + hz := Nat.lt_mul_div_succ 1000000000 hpos
  apply Nat.div_eq_of_lt_le
  · exact Nat.mul_div_le 1000000000 hz
  · rw [Nat.succ_mul]
    omega

theorem keepsRate_answers (hpos : 1 ≤ hz) (hrate : hz ≤ 1000000000)
    (h : Punctual ((ofRate hz start).answers asked)) :
    KeepsRate hz start (ofRate hz start) ((ofRate hz start).answers asked) := by
  have hperiod := period_ofRate hpos start
  have hcount : ∀ span,
      (ofRate hz start).HitsUntil ((ofRate hz start).answers asked) (start + span) →
        ((ofRate hz start).strikes asked).countP (· ≤ start + span) =
          span / (1000000000 / hz) := by
    intro span hhits
    rw [← hperiod]
    exact countP_strikes_of_hitsUntil h (period_ofRate_pos hrate start) rfl hhits
  have hnearly : ∀ span,
      (ofRate hz start).HitsUntil ((ofRate hz start).answers asked) (start + span) →
        hz * span <
          (((ofRate hz start).strikes asked).countP (· ≤ start + span) + 1) * 1000000000 := by
    intro span hhits
    rw [hcount span hhits]
    exact rate_mul_lt hpos (Nat.div_pos hrate hpos) span
  constructor
  case period_eq => exact hperiod
  case on_time =>
    intro k time hk
    rw [time_of_strike h hk, Nat.succ_mul]
    show start + (ofRate hz start).period + _ = _
    omega
  case count_eq =>
    intro span hhits
    rw [hperiod]
    exact hcount span hhits
  case nearly => exact hnearly
  case not_fewer =>
    intro seconds hhits
    have hlt := hnearly _ hhits
    rw [← Nat.mul_assoc] at hlt
    exact Nat.le_of_lt_succ (Nat.lt_of_mul_lt_mul_right hlt)
  case first_second =>
    intro hsquare hhits
    have hsecond := hcount _ hhits
    rwa [second_div_period hpos hsquare] at hsecond

end Chip8.Metronome
