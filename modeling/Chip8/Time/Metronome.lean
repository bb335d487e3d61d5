import Chip8.Limits

/-!
# Metronomes

Beats at a fixed rate. Times are nanoseconds from an arbitrary start. A metronome that is asked too
late drops the beats it missed: the next one is a full period away, never a burst.

Times end at `lastInstant`, and a metronome whose next beat would lie behind it fails. `ofRate?` and
`ask?` say when that happens. `ofRate`, `isDue` and `beat` say what happens otherwise; they are for
those who have no use for times so far off.
-/
namespace Chip8

structure Metronome where
  period : Nat
  /-- When the next beat is due. -/
  next : Nat
  deriving DecidableEq, Repr

namespace Metronome

/-- `hz` beats a second, where 0 counts as 1; the first is due a full period after `start`. The
period is rounded down to whole nanoseconds. -/
def ofRate (hz start : Nat) : Metronome :=
  let period := 1000000000 / max hz 1
  ⟨period, start + period⟩

def isDue (t : Metronome) (now : Nat) : Bool := decide (t.next ≤ now)

/-- Strikes the beat that is due: the next one comes a period later, counted from `now` if that
would not be in the future. -/
def beat (t : Metronome) (now : Nat) : Metronome :=
  if t.isDue now then
    { t with next := if t.next + t.period ≤ now then now + t.period else t.next + t.period }
  else t

/-- The time that is `duration` after `time`, if it has a name. -/
def after? (time duration : Nat) : Option Nat :=
  if time + duration ≤ lastInstant then some (time + duration) else none

/-- The metronome that `ofRate` gives, if the time of its first beat has a name. -/
def ofRate? (hz start : Nat) : Option Metronome :=
  let period := 1000000000 / max hz 1
  (after? start period).map fun next => ⟨period, next⟩

/-- Asks whether a beat is due, and strikes it if so. The beat after it is first put a period behind
the one that is struck, even when that is too early; both times must have a name. -/
def ask? (t : Metronome) (now : Nat) : Option (Bool × Metronome) :=
  if now < t.next then some (false, t)
  else
    (after? t.next t.period).bind fun next =>
      (if next ≤ now then after? now t.period else some next).map fun next =>
        (true, { t with next := next })

/-- A question and what came of it. -/
structure Answer where
  /-- When the next beat was due before the question. -/
  due : Nat
  now : Nat
  struck : Bool
  /-- When the next beat is due after the question. -/
  next : Nat
  deriving DecidableEq, Repr

/-- The answers of a metronome that is asked at the given times, one after the other. -/
def answers? : Metronome → List Nat → Option (List Answer)
  | _, [] => some []
  | t, now :: later =>
    (t.ask? now).bind fun (struck, asked) =>
      (answers? asked later).map (⟨t.next, now, struck, asked.next⟩ :: ·)

/-- A new metronome and its answers at the given times. -/
def play? (hz start : Nat) (asked : List Nat) : Option (Metronome × List Answer) :=
  (ofRate? hz start).bind fun t => (t.answers? asked).map (t, ·)

theorem beat_of_not_due {t : Metronome} {now : Nat} (h : t.isDue now = false) : t.beat now = t := by
  simp only [beat, h, Bool.false_eq_true, if_false]

@[simp] theorem period_beat (t : Metronome) (now : Nat) : (t.beat now).period = t.period := by
  unfold beat
  split <;> rfl

end Metronome
end Chip8
