import Chip8.Time.Metronome

/-!
# Metronomes that are asked in time

A metronome that is never asked later than its next beat strikes all its beats, each at its time.
`Struck` ties such a metronome to the times at which it has struck. That a metronome asked too late
drops beats is not covered.
-/
namespace Chip8.Metronome

/-- The times of the first `count` beats after `start`. -/
def beats (start period count : Nat) : List Nat :=
  (List.range count).map fun k => start + (k + 1) * period

theorem beats_succ (start period count : Nat) :
    beats start period (count + 1) = beats start period count ++ [start + (count + 1) * period] := by
  rw [beats, List.range_succ, List.map_append]
  rfl

theorem period_ofRate {hz : Nat} (h : 1 ≤ hz) (start : Nat) :
    (ofRate hz start).period = 1000000000 / hz := by
  show 1000000000 / max hz 1 = _
  rw [Nat.max_eq_left h]

theorem period_ofRate_pos {hz : Nat} (h : hz ≤ 1000000000) (start : Nat) :
    0 < (ofRate hz start).period :=
  Nat.div_pos (Nat.max_le.mpr ⟨h, by decide⟩) (Nat.le_max_right hz 1)

/-- More beats than a second has nanoseconds come all at once. -/
theorem period_ofRate_eq_zero {hz : Nat} (h : 1000000000 < hz) (start : Nat) :
    (ofRate hz start).period = 0 :=
  Nat.div_eq_of_lt (Nat.lt_of_lt_of_le h (Nat.le_max_left hz 1))

variable {start period now : Nat} {t : Metronome} {times : List Nat}

theorem lt_next_of_not_due (h : t.isDue now = false) : now < t.next := by
  have hlt := of_decide_eq_false h
  omega

theorem next_beat_of_due (h : t.isDue now = true) :
    (t.beat now).next =
      if t.next + t.period ≤ now then now + t.period else t.next + t.period := by
  rw [beat, if_pos h]

/-- Whatever a metronome is asked, its next beat lies in the future. -/
theorem lt_next_beat (hperiod : 0 < t.period) (now : Nat) : now < (t.beat now).next := by
  cases hdue : t.isDue now with
  | false =>
    rw [beat_of_not_due hdue]
    exact lt_next_of_not_due hdue
  | true =>
    rw [next_beat_of_due hdue]
    split <;> omega

/-- A metronome whose beats come all at once never gets ahead of the time. -/
theorem next_beat_le (hperiod : t.period = 0) (hnext : t.next ≤ now) : (t.beat now).next ≤ now := by
  rw [next_beat_of_due (decide_eq_true hnext), hperiod]
  split <;> omega

/-- Up to `now` the metronome has struck at the given times, which are those of its first beats, and
its next beat is not yet past. -/
structure Struck (start period : Nat) (t : Metronome) (times : List Nat) (now : Nat) : Prop where
  period_eq : t.period = period
  times_eq : times = beats start period times.length
  next_eq : t.next = start + (times.length + 1) * period
  last_le : start + times.length * period ≤ now
  le_next : now ≤ t.next

theorem struck_ofRate (hz start : Nat) :
    Struck start (ofRate hz start).period (ofRate hz start) [] start := by
  refine ⟨rfl, rfl, ?_, ?_, Nat.le_add_right _ _⟩
  · show start + _ = start + (0 + 1) * _
    rw [Nat.zero_add, Nat.one_mul]
    rfl
  · show start + 0 * _ ≤ start
    rw [Nat.zero_mul]
    exact Nat.le_refl _

/-- A metronome that is asked when its beat is due, and not later, strikes it at its time. -/
theorem Struck.beat (h : Struck start period t times now) :
    Struck start period (t.beat now) (times ++ if t.isDue now then [now] else []) now := by
  obtain ⟨hperiod, htimes, hnext, hlast, hle⟩ := h
  cases hdue : t.isDue now with
  | false =>
    rw [beat_of_not_due hdue, if_neg Bool.false_ne_true, List.append_nil]
    exact ⟨hperiod, htimes, hnext, hlast, hle⟩
  | true =>
    have hnow : now = t.next := Nat.le_antisymm hle (of_decide_eq_true hdue)
    have hbeat : (t.beat now).next = t.next + period := by
      rw [next_beat_of_due hdue, hnow, ite_self, hperiod]
    have hafter : start + (times.length + 1 + 1) * period = t.next + period := by
      rw [hnext, Nat.succ_mul (times.length + 1) period, Nat.add_assoc]
    rw [if_pos rfl]
    constructor
    · rw [period_beat, hperiod]
    · rw [List.length_append, List.length_singleton, beats_succ, ← htimes, ← hnext, hnow]
    · rw [hbeat, List.length_append, List.length_singleton, hafter]
    · rw [List.length_append, List.length_singleton]
      exact Nat.le_of_eq (hnext.symm.trans hnow.symm)
    · rw [hbeat, hnow]
      exact Nat.le_add_right _ _

theorem Struck.later (h : Struck start period t times now) {later : Nat} (hlater : now ≤ later)
    (hnext : later ≤ t.next) : Struck start period t times later :=
  ⟨h.period_eq, h.times_eq, h.next_eq, Nat.le_trans h.last_le hlater, hnext⟩

/-- As many beats have been struck as whole periods have passed. -/
theorem Struck.times_eq_of_lt (h : Struck start period t times now) (hlt : now < t.next) :
    times = beats start period ((now - start) / period) := by
  have hlast := h.last_le
  have hnext := h.next_eq
  have hcount : (now - start) / period = times.length :=
    Nat.div_eq_of_lt_le (by omega) (by omega)
  rw [hcount]
  exact h.times_eq

end Chip8.Metronome
