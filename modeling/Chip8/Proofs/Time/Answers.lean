import Chip8.Proofs.Time.Beats

/-!
# The answers of a metronome

Times end at `lastInstant`, where `ask?` fails and `beat` does not. `answers` is what a metronome
answers by `beat`. One question fails just if it strikes a beat and the one after it is past
`lastInstant` (`ask?_eq_none_iff`). A run of questions returns just if the last of them leaves the
next beat where times have names, and then the answers are those of `beat` (`answers?_eq`). For a
new metronome `isSome_play?_of_le` names times at which the questions return whatever they are
answered.
-/
namespace Chip8.Metronome

/-- The metronome after it has been asked at the given times, one after the other. -/
def askedAt (t : Metronome) (asked : List Nat) : Metronome := asked.foldl beat t

def answer (t : Metronome) (now : Nat) : Answer := ⟨t.next, now, t.isDue now, (t.beat now).next⟩

/-- The answers at the given times, if times had no end. -/
def answers : Metronome → List Nat → List Answer
  | _, [] => []
  | t, now :: later => t.answer now :: (t.beat now).answers later

variable {t : Metronome} {asked : List Nat} {hz start now time : Nat}

theorem next_add_period_le_beat (h : t.isDue now = true) :
    t.next + t.period ≤ (t.beat now).next := by
  have hdue : t.next ≤ now := of_decide_eq_true h
  rw [next_beat_of_due h]
  split <;> omega

theorem next_le_beat (t : Metronome) (now : Nat) : t.next ≤ (t.beat now).next := by
  cases hdue : t.isDue now with
  | false => exact Nat.le_of_eq (congrArg Metronome.next (beat_of_not_due hdue).symm)
  | true => exact Nat.le_trans (Nat.le_add_right _ _) (next_add_period_le_beat hdue)

/-- A next beat that is at most a period behind some time stays so when the metronome is asked
until then. -/
theorem next_beat_le_add (hnext : t.next ≤ time + t.period) (hnow : now ≤ time) :
    (t.beat now).next ≤ time + t.period := by
  cases hdue : t.isDue now with
  | false => rwa [beat_of_not_due hdue]
  | true =>
    have hle : t.next ≤ now := of_decide_eq_true hdue
    rw [next_beat_of_due hdue]
    split <;> omega

theorem askedAt_append (t : Metronome) (earlier later : List Nat) :
    t.askedAt (earlier ++ later) = (t.askedAt earlier).askedAt later :=
  List.foldl_append

theorem period_askedAt (t : Metronome) (asked : List Nat) :
    (t.askedAt asked).period = t.period := by
  induction asked generalizing t with
  | nil => rfl
  | cons now later ih => exact (ih (t.beat now)).trans (period_beat t now)

theorem next_le_askedAt (t : Metronome) (asked : List Nat) : t.next ≤ (t.askedAt asked).next := by
  induction asked generalizing t with
  | nil => exact Nat.le_refl _
  | cons now later ih => exact Nat.le_trans (next_le_beat t now) (ih (t.beat now))

theorem next_askedAt_le_add (hnext : t.next ≤ time + t.period)
    (hasked : ∀ now ∈ asked, now ≤ time) : (t.askedAt asked).next ≤ time + t.period := by
  induction asked generalizing t with
  | nil => exact hnext
  | cons now later ih =>
    obtain ⟨hnow, hlater⟩ := List.forall_mem_cons.mp hasked
    have hbeat := next_beat_le_add hnext hnow
    rw [← period_beat t now] at hbeat ⊢
    exact ih hbeat hlater

theorem exists_of_mem_answers {a : Answer} (h : a ∈ t.answers asked) :
    ∃ earlier now later, asked = earlier ++ now :: later ∧ a = (t.askedAt earlier).answer now := by
  induction asked generalizing t with
  | nil => exact absurd h List.not_mem_nil
  | cons now later ih =>
    rcases List.mem_cons.mp h with rfl | hmem
    · exact ⟨[], now, later, rfl, rfl⟩
    · obtain ⟨earlier, time, rest, rfl, ha⟩ := ih hmem
      exact ⟨now :: earlier, time, rest, rfl, ha⟩

/-- A question whose time has a name fails just if it would put the next beat past the last
instant. -/
theorem ask?_eq (h : t.next ≤ lastInstant) (now : Nat) :
    t.ask? now =
      if (t.beat now).next ≤ lastInstant then some (t.isDue now, t.beat now) else none := by
  cases hdue : t.isDue now with
  | false => rw [beat_of_not_due hdue, if_pos h, ask?, if_pos (lt_next_of_not_due hdue)]
  | true =>
    have hle : t.next ≤ now := of_decide_eq_true hdue
    rw [ask?, if_neg (Nat.not_lt.mpr hle), beat, if_pos hdue]
    by_cases hcaught : t.next + t.period ≤ now
    · -- the time after the struck beat is not past `now`, so it has a name if the next beat has
      rw [if_pos hcaught]
      by_cases hfits : now + t.period ≤ lastInstant
      · have hfirst : t.next + t.period ≤ lastInstant := by omega
        simp only [after?, hfirst, hcaught, hfits, if_true, Option.bind_some, Option.map_some]
      · rw [if_neg hfits]
        simp only [after?, hfits, if_false]
        split
        · simp only [Option.bind_some, hcaught, if_true, Option.map_none]
        · rfl
    · rw [if_neg hcaught]
      by_cases hfits : t.next + t.period ≤ lastInstant
      · simp only [after?, hfits, hcaught, if_true, if_false, Option.bind_some, Option.map_some]
      · simp only [after?, hfits, if_false, Option.bind_none]

theorem ask?_eq_none_iff (h : t.next ≤ lastInstant) :
    t.ask? now = none ↔ t.isDue now = true ∧ lastInstant < (t.beat now).next := by
  rw [ask?_eq h]
  constructor
  · intro hnone
    have hpast : lastInstant < (t.beat now).next := by
      refine Nat.lt_of_not_le fun hle => ?_
      rw [if_pos hle] at hnone
      contradiction
    refine ⟨Bool.of_not_eq_false fun hdue => ?_, hpast⟩
    rw [beat_of_not_due hdue] at hpast
    omega
  · rintro ⟨-, hpast⟩
    exact if_neg (Nat.not_le.mpr hpast)

/-- Questions return just as long as the last of them leaves the next beat where times have names,
since no question moves it back. -/
theorem answers?_eq (h : t.next ≤ lastInstant) (asked : List Nat) :
    t.answers? asked =
      if (t.askedAt asked).next ≤ lastInstant then some (t.answers asked) else none := by
  induction asked generalizing t with
  | nil => exact (if_pos h).symm
  | cons now later ih =>
    rw [answers?, ask?_eq h]
    by_cases hbeat : (t.beat now).next ≤ lastInstant
    · rw [if_pos hbeat, Option.bind_some]
      show ((t.beat now).answers? later).map _ = _
      rw [ih hbeat]
      show _ = if ((t.beat now).askedAt later).next ≤ lastInstant then _ else none
      split <;> rfl
    · have hlast : ¬ (t.askedAt (now :: later)).next ≤ lastInstant := fun hle =>
        hbeat (Nat.le_trans (next_le_askedAt (t.beat now) later) hle)
      rw [if_neg hbeat, if_neg hlast, Option.bind_none]

theorem ofRate?_eq (hz start : Nat) :
    ofRate? hz start =
      if (ofRate hz start).next ≤ lastInstant then some (ofRate hz start) else none := by
  show (if _ then _ else _ : Option Nat).map _ = _
  split
  · next h => exact (if_pos h).symm
  · next h => exact (if_neg h).symm

theorem play?_eq (hz start : Nat) (asked : List Nat) :
    play? hz start asked =
      if ((ofRate hz start).askedAt asked).next ≤ lastInstant then
        some (ofRate hz start, (ofRate hz start).answers asked)
      else none := by
  rw [play?, ofRate?_eq]
  by_cases hmade : (ofRate hz start).next ≤ lastInstant
  · rw [if_pos hmade, Option.bind_some, answers?_eq hmade]
    split <;> rfl
  · have hlast : ¬ ((ofRate hz start).askedAt asked).next ≤ lastInstant := fun hle =>
      hmade (Nat.le_trans (next_le_askedAt _ asked) hle)
    rw [if_neg hmade, if_neg hlast, Option.bind_none]

theorem eq_of_play? {answers : List Answer} (h : play? hz start asked = some (t, answers)) :
    t = ofRate hz start ∧ answers = (ofRate hz start).answers asked := by
  rw [play?_eq] at h
  split at h
  · obtain ⟨rfl, rfl⟩ := Prod.mk.inj (Option.some.inj h)
    exact ⟨rfl, rfl⟩
  · contradiction

theorem isSome_play?_iff (hz start : Nat) (asked : List Nat) :
    (play? hz start asked).isSome ↔ ((ofRate hz start).askedAt asked).next ≤ lastInstant := by
  rw [play?_eq]
  split
  · next h => exact iff_of_true rfl h
  · next h => exact iff_of_false Bool.false_ne_true h

/-- A metronome answers all questions that come a period or more before the last instant. -/
theorem isSome_play?_of_le
    (h : ∀ time ∈ start :: asked, time + (ofRate hz start).period ≤ lastInstant) :
    (play? hz start asked).isSome := by
  obtain ⟨hstart, hasked⟩ := List.forall_mem_cons.mp h
  obtain ⟨last, hlast⟩ := Nat.exists_eq_add_of_le' (Nat.le_trans (Nat.le_add_left _ start) hstart)
  rw [hlast] at hstart hasked
  rw [isSome_play?_iff, hlast]
  exact next_askedAt_le_add hstart fun now hnow => Nat.le_of_add_le_add_right (hasked now hnow)

end Chip8.Metronome
