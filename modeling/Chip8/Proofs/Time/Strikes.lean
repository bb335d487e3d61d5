import Chip8.Proofs.Time.Answers

/-!
# Metronomes that are asked at any times

A metronome may be asked long before its next beat, late, or several times at once. `KeepsPace` has
what is certain all the same about its answers, as long as the times do not go back. It comes from
two facts about one question: a beat moves the next one on by a period at least, and no question
moves it further than a period behind the question. At which times a metronome strikes that is asked
in time is said for `Struck` and not here. Past the last instant nothing is answered:
`due_beat_fails`.
-/
namespace Chip8.Metronome

/-- The times of the questions that were answered by a beat. -/
def struckAt (answers : List Answer) : List Nat :=
  (answers.filter fun a => a.struck).map fun a => a.now

/-- What is certain about the answers of a metronome. -/
structure KeepsPace (start : Nat) (t : Metronome) (answers : List Answer) : Prop where
  /-- After each question the next beat is still to come, and no more than a period away. -/
  ahead : ∀ a ∈ answers, a.now < a.next ∧ a.next ≤ a.now + t.period
  /-- Each question is answered by a beat if the next beat has come, and not otherwise. -/
  struck_iff : ∀ a ∈ answers, a.struck = true ↔ a.due ≤ a.now
  /-- There are no more beats than whole periods have passed. -/
  count_le : ∀ time, (struckAt answers).countP (· ≤ time) ≤ (time - start) / t.period
  /-- No two questions at the same time are both answered by a beat. -/
  apart : (struckAt answers).Pairwise (· < ·)
  /-- From a beat to a later one there are more than the periods of the beats in between. -/
  window : ∀ earlier first between last later,
    struckAt answers = earlier ++ first :: between ++ last :: later →
      between.length * t.period < last - first

/-- Those of the given times at which the metronome strikes, when it is asked at all of them. -/
def strikes (t : Metronome) (asked : List Nat) : List Nat := struckAt (t.answers asked)

variable {t : Metronome} {asked earlier later : List Nat} {hz start now time : Nat}

theorem strikes_of_not_due (h : t.isDue now = false) (later : List Nat) :
    t.strikes (now :: later) = t.strikes later := by
  have hstruck : ¬ (t.answer now).struck = true := Bool.eq_false_iff.mp h
  rw [strikes, struckAt, answers, List.filter_cons_of_neg hstruck, beat_of_not_due h]
  rfl

theorem strikes_of_due (h : t.isDue now = true) (later : List Nat) :
    t.strikes (now :: later) = now :: (t.beat now).strikes later := by
  have hstruck : (t.answer now).struck = true := h
  rw [strikes, struckAt, answers, List.filter_cons_of_pos hstruck]
  rfl

/-- Every beat takes a period, however late the questions come. -/
theorem next_add_le_of_strike {k : Nat} (h : (t.strikes asked)[k]? = some time) :
    t.next + k * t.period ≤ time := by
  induction asked generalizing t k with
  | nil => contradiction
  | cons now later ih =>
    cases hdue : t.isDue now with
    | false =>
      rw [strikes_of_not_due hdue] at h
      exact ih h
    | true =>
      rw [strikes_of_due hdue] at h
      cases k with
      | zero =>
        obtain rfl : now = time := Option.some.inj h
        rw [Nat.zero_mul]
        exact of_decide_eq_true hdue
      | succ k =>
        have hrest : (t.beat now).next + k * (t.beat now).period ≤ time := ih h
        have hbeat := next_add_period_le_beat hdue
        rw [period_beat] at hrest
        rw [Nat.succ_mul]
        omega

theorem next_le_of_mem_strikes (h : time ∈ t.strikes asked) : t.next ≤ time := by
  obtain ⟨k, hk⟩ := List.mem_iff_getElem?.mp h
  exact Nat.le_trans (Nat.le_add_right _ _) (next_add_le_of_strike hk)

theorem pairwise_lt_strikes (hperiod : 0 < t.period) (asked : List Nat) :
    (t.strikes asked).Pairwise (· < ·) := by
  induction asked generalizing t with
  | nil => exact List.Pairwise.nil
  | cons now later ih =>
    have hrest := ih (t := t.beat now) (by rwa [period_beat])
    cases hdue : t.isDue now with
    | false =>
      rw [beat_of_not_due hdue] at hrest
      rwa [strikes_of_not_due hdue]
    | true =>
      rw [strikes_of_due hdue]
      refine List.pairwise_cons.mpr ⟨fun time htime => ?_, hrest⟩
      exact Nat.lt_of_lt_of_le (lt_next_beat hperiod now) (next_le_of_mem_strikes htime)

/-- A beat splits the questions: it answers one of them, and the later beats answer those behind
it. -/
theorem split_of_strikes {first : Nat} (h : t.strikes asked = earlier ++ first :: later) :
    ∃ before after, asked = before ++ first :: after ∧
      ((t.askedAt before).beat first).strikes after = later := by
  induction asked generalizing t earlier with
  | nil =>
    have hne : earlier ++ first :: later ≠ [] :=
      List.append_ne_nil_of_right_ne_nil earlier (List.cons_ne_nil first later)
    exact absurd h.symm hne
  | cons now rest ih =>
    cases hdue : t.isDue now with
    | false =>
      rw [strikes_of_not_due hdue] at h
      obtain ⟨before, after, rfl, hlater⟩ := ih h
      refine ⟨now :: before, after, rfl, ?_⟩
      rw [askedAt, List.foldl_cons, beat_of_not_due hdue]
      exact hlater
    | true =>
      rw [strikes_of_due hdue] at h
      cases earlier with
      | nil =>
        obtain ⟨rfl, hlater⟩ := List.cons.inj h
        exact ⟨[], rest, rfl, hlater⟩
      | cons _ earlier =>
        obtain ⟨before, after, rfl, hlater⟩ := ih (List.cons.inj h).2
        exact ⟨now :: before, after, rfl, hlater⟩

/-- The first of two beats puts the next beat into the future, and each beat after that takes a
period. -/
theorem strikes_window {first last : Nat} {between : List Nat} (hperiod : 0 < t.period)
    (h : t.strikes asked = earlier ++ first :: between ++ last :: later) :
    first + between.length * t.period < last := by
  rw [List.append_assoc, List.cons_append] at h
  obtain ⟨before, after, -, hstrikes⟩ := split_of_strikes h
  have hlast : (((t.askedAt before).beat first).strikes after)[between.length]? = some last := by
    rw [hstrikes, List.getElem?_append_right (Nat.le_refl _), Nat.sub_self]
    rfl
  have hle := next_add_le_of_strike hlast
  rw [period_beat, period_askedAt] at hle
  have hlt := lt_next_beat (t := t.askedAt before) (by rwa [period_askedAt]) first
  omega

/-- The last of `k + 1` beats up to some time comes `k` periods after the first could. -/
theorem next_add_le_of_countP {k : Nat} (h : k < (t.strikes asked).countP (· ≤ time)) :
    t.next + k * t.period ≤ time := by
  -- the first `k` beats do not make up the count, so one of the others is counted
  have hothers : 0 < ((t.strikes asked).drop k).countP (· ≤ time) := by
    have hcount : (t.strikes asked).countP (· ≤ time) =
        ((t.strikes asked).take k).countP (· ≤ time) +
          ((t.strikes asked).drop k).countP (· ≤ time) := by
      rw [← List.countP_append, List.take_append_drop]
    have hfirst : ((t.strikes asked).take k).countP (· ≤ time) ≤ k :=
      Nat.le_trans List.countP_le_length (List.length_take_le k _)
    omega
  obtain ⟨struck, hstruck, hle⟩ := List.countP_pos_iff.mp hothers
  obtain ⟨i, hi⟩ := List.mem_iff_getElem?.mp hstruck
  rw [List.getElem?_drop] at hi
  calc t.next + k * t.period
      ≤ t.next + (k + i) * t.period :=
        Nat.add_le_add_left (Nat.mul_le_mul_right _ (Nat.le_add_right k i)) _
    _ ≤ struck := next_add_le_of_strike hi
    _ ≤ time := of_decide_eq_true hle

theorem countP_strikes_le (hperiod : 0 < t.period) (hnext : t.next = start + t.period)
    (asked : List Nat) (time : Nat) :
    (t.strikes asked).countP (· ≤ time) ≤ (time - start) / t.period := by
  rw [Nat.le_div_iff_mul_le hperiod]
  cases hcount : (t.strikes asked).countP (· ≤ time) with
  | zero =>
    rw [Nat.zero_mul]
    exact Nat.zero_le _
  | succ k =>
    have hle : t.next + k * t.period ≤ time :=
      next_add_le_of_countP (Nat.lt_of_lt_of_eq (Nat.lt_succ_self k) hcount.symm)
    rw [Nat.succ_mul]
    omega

/-- A beat of a new metronome is at most a period behind the last question. -/
theorem ahead_of_mem_answers {a : Answer} (hperiod : 0 < (ofRate hz start).period)
    (horder : (start :: asked).Pairwise (· ≤ ·)) (ha : a ∈ (ofRate hz start).answers asked) :
    a.now < a.next ∧ a.next ≤ a.now + (ofRate hz start).period := by
  obtain ⟨earlier, now, later, rfl, rfl⟩ := exists_of_mem_answers ha
  obtain ⟨hstart, hasked⟩ := List.pairwise_cons.mp horder
  have hle : start ≤ now := hstart now (List.mem_append_right earlier List.mem_cons_self)
  have hearlier : ∀ time ∈ earlier, time ≤ now := fun time htime =>
    (List.pairwise_append.mp hasked).2.2 time htime now List.mem_cons_self
  constructor
  · exact lt_next_beat (by rwa [period_askedAt]) now
  · have hnext : ((ofRate hz start).askedAt earlier).next ≤ now + (ofRate hz start).period :=
      next_askedAt_le_add (Nat.add_le_add_right hle _) hearlier
    rw [← period_askedAt (ofRate hz start) earlier] at hnext ⊢
    exact next_beat_le_add hnext (Nat.le_refl now)

theorem keepsPace_answers (hrate : hz ≤ 1000000000) (horder : (start :: asked).Pairwise (· ≤ ·)) :
    KeepsPace start (ofRate hz start) ((ofRate hz start).answers asked) := by
  have hperiod := period_ofRate_pos hrate start
  constructor
  case ahead => exact fun a ha => ahead_of_mem_answers hperiod horder ha
  case struck_iff =>
    intro a ha
    obtain ⟨earlier, now, later, -, rfl⟩ := exists_of_mem_answers ha
    exact decide_eq_true_iff
  case count_le => exact countP_strikes_le hperiod rfl asked
  case apart => exact pairwise_lt_strikes hperiod asked
  case window =>
    intro earlier first between last later h
    have hlt := strikes_window hperiod h
    omega

end Chip8.Metronome
