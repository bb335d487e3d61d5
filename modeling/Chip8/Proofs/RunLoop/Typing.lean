import Chip8.Display
import Chip8.Proofs.Keyboard.Relayed
import Chip8.Proofs.RunLoop.Delivery
import Chip8.Proofs.RunLoop.Notices
import Chip8.Proofs.RunLoop.Presses

/-!
# From the keyboard to the keypad

The keyboard's side sends the signals of its readings to a run loop on a logical clock, taking turns
with the rounds in any way: `sending` lists what then happens. A full mailbox makes the sender wait,
so no signal is lost or overtaken. `Typed` says what becomes of the signals: the keys are pressed in
order, each by the round that takes its signal, and the run ends with the signal to quit, which is
the last. That the rounds suffice to take every signal is not said here.
-/
namespace Chip8

open Keyboard

/-- Whose turn it is: the sender's, with its next signal, or the run loop's, with a round. -/
inductive Turn where
  | send
  | round
  deriving DecidableEq, Repr

namespace RunLoop

section

variable {δ κ : Type} [Display δ] [Clock κ] (supply : Supply)

/-- What happens to a run loop to which signals are sent in turns. A signal for which there is no
room stays the next one, and a sender that has sent all of them hangs up. -/
def sending : RunLoop δ κ → List Signal → List Turn → List Event
  | _, _, [] => []
  | s, signals, .round :: turns => .round :: sending (s.act supply .round) signals turns
  | s, [], .send :: turns => .hangUp :: sending (s.act supply .hangUp) [] turns
  | s, signal :: signals, .send :: turns =>
    if s.inbound.accepts then
      .offer signal :: sending (s.act supply (.offer signal)) signals turns
    else sending s (signal :: signals) turns

/-- The signals that are let in are the first of those sent, and all of them once the sender has
hung up. -/
theorem accepted_sending (s : RunLoop δ κ) (signals : List Signal) (turns : List Turn) :
    ∃ unsent, signals = s.accepted supply (s.sending supply signals turns) ++ unsent ∧
      (.hangUp ∈ s.sending supply signals turns → unsent = []) := by
  induction turns generalizing s signals with
  | nil => exact ⟨signals, rfl, fun h => nomatch h⟩
  | cons turn turns ih =>
    cases turn with
    | round =>
      obtain ⟨unsent, hsignals, hall⟩ := ih (s.act supply .round) signals
      refine ⟨unsent, hsignals, fun hup => hall ?_⟩
      exact (List.mem_cons.mp hup).resolve_left (by decide)
    | send =>
      cases signals with
      | nil =>
        obtain ⟨unsent, hsignals, -⟩ := ih (s.act supply .hangUp) []
        exact ⟨unsent, hsignals, fun _ => (List.append_eq_nil_iff.mp hsignals.symm).2⟩
      | cons signal signals =>
        rw [sending]
        split
        · next haccepts =>
          obtain ⟨unsent, hsignals, hall⟩ := ih (s.act supply (.offer signal)) signals
          refine ⟨unsent, ?_, fun hup => hall ((List.mem_cons.mp hup).resolve_left (by simp))⟩
          rw [accepted, admitted, if_pos haccepts, List.append_assoc, ← hsignals]
          rfl
        · exact ih s (signal :: signals)

/-- The codes of the keys that a history presses, the first one first. -/
def presses (s : RunLoop δ κ) (events : List Event) : List UInt8 :=
  ((s.chronicle supply events).map Prod.snd).filterMap Operation.pressed?

/-- A history presses the keys whose signals its rounds take, and no others. -/
theorem presses_eq (s : RunLoop δ κ) (events : List Event) :
    s.presses supply events = (s.consumed supply events).filterMap Signal.code? := by
  unfold presses consumed chronicle
  induction s.rounds supply events with
  | nil => rfl
  | cons r rounds ih =>
    rw [List.flatMap_cons, List.map_append, List.filterMap_append, ih, map_snd_timed,
      pressed_operations, List.filterMap_cons]
    cases r.taken? supply with
    | none => rfl
    | some signal => cases signal <;> rfl

theorem consumed_append (s : RunLoop δ κ) (first second : List Event) :
    s.consumed supply (first ++ second) =
      s.consumed supply first ++ (s.after supply first).consumed supply second := by
  rw [consumed, rounds_append, List.filterMap_append, consumed, consumed]

end

variable {δ : Type} [Display δ] {supply : Supply} {s : RunLoop δ LogicalClock}
  {readings : List Reading} {events : List Event}

/-- What a history makes of the signals that the keyboard sends for some readings. -/
structure Typed (supply : Supply) (s : RunLoop δ LogicalClock) (readings : List Reading)
    (events : List Event) : Prop where
  /-- Nothing that means something is left out, up to the first reading that asks to quit. -/
  sent : (∀ r ∈ readings, ¬ r.Quits) ∧
      (relay true readings).sent = readings.filterMap Reading.signal ∨
    ∃ earlier, Reading.QuitsAfter earlier readings ∧
      (relay true readings).sent = earlier.filterMap Reading.signal ++ [.quit]
  /-- Each signal has been taken, waits, or is still to be sent, in this order. -/
  in_order : ∃ unsent, (relay true readings).sent =
      s.consumed supply events ++ (s.after supply events).inbound.waiting ++ unsent ∧
    (.hangUp ∈ events → unsent = [])
  delivers : ∀ r ∈ s.rounds supply events, r.Delivers supply
  presses_eq : s.presses supply events = (s.consumed supply events).filterMap Signal.code?
  isDown : ∀ r ∈ s.rounds supply events, ∀ code, r.taken? supply = some (.key code) →
    code.toNat ≤ 0xF ∧ (r.round supply).state.machine.keypad.isDown code = true
  /-- No notice of a code that names no key. -/
  every_key_exists : ∀ code, .noSuchKey code ∉ (relay true readings).log ∧
    ∀ r ∈ s.rounds supply events, .noSuchKey code ∉ (r.round supply).log
  /-- A round that asks to shut down takes the last signal. A reading asked to quit, and by then
  the keys of the readings before it have been pressed; later rounds take nothing. -/
  shutDown : ∀ before later, events = before ++ .round :: later →
    ((s.after supply before).round supply).result = .ok .shutDown →
    ∃ earlier, Reading.QuitsAfter earlier readings ∧
      s.consumed supply before = earlier.filterMap Reading.signal ∧
      s.presses supply before = (earlier.filterMap Reading.signal).filterMap Signal.code? ∧
      (relay true readings).sent = s.consumed supply before ++ [.quit] ∧
      ∀ r ∈ ((s.after supply before).act supply .round).rounds supply later,
        r.taken? supply = none

/-- A round that takes no key, or one that the keypad has, notes no code that names none. -/
theorem noSuchKey_notMem_log_round {r : RunLoop δ LogicalClock}
    (hcode : ∀ code, r.taken? supply = some (.key code) → code.toNat ≤ 0xF) (code : UInt8) :
    .noSuchKey code ∉ (r.round supply).log := by
  intro hnotice
  rcases mem_log_round hnotice with htrace | ⟨_, _, hbeyond, htaken⟩ | hgone
  · cases htrace
  · exact absurd (hcode _ htaken) (Nat.not_le.mpr hbeyond)
  · cases hgone

/-- The round that takes the keyboard's signal to quit takes its last one. -/
theorem quit_taken_last {before later : List Event} {rest : List Signal}
    (hsent : (relay true readings).sent =
      s.consumed supply (before ++ .round :: later) ++ rest)
    (htaken : (s.after supply before).taken? supply = some .quit) :
    (relay true readings).sent = s.consumed supply before ++ [.quit] ∧
      (∀ r ∈ ((s.after supply before).act supply .round).rounds supply later,
        r.taken? supply = none) ∧
      ∃ earlier, Reading.QuitsAfter earlier readings ∧
        s.consumed supply before = earlier.filterMap Reading.signal := by
  have hsplit : (relay true readings).sent = s.consumed supply before ++ .quit ::
      (((s.after supply before).act supply .round).consumed supply later ++ rest) := by
    rw [hsent, consumed_append, consumed_round, htaken, List.append_assoc]
    rfl
  obtain ⟨hnothing, hfirst⟩ := quit_last_sent hsplit
  rw [hnothing] at hsplit
  have hlater := (List.append_eq_nil_iff.mp hnothing).1
  exact ⟨hsplit, List.filterMap_eq_nil_iff.mp hlater, hfirst⟩

/-- Signals of which the first ones are taken, and the others wait or are still to be sent. -/
theorem typed_of_sent {unsent : List Signal}
    (hsent : (relay true readings).sent =
      s.consumed supply events ++ ((s.after supply events).inbound.waiting ++ unsent))
    (hall : .hangUp ∈ events → unsent = []) : s.Typed supply readings events := by
  have hcode : ∀ r ∈ s.rounds supply events, ∀ code, r.taken? supply = some (.key code) →
      code.toNat ≤ 0xF := by
    intro r hr code htaken
    have hsignal : .key code ∈ (relay true readings).sent := by
      rw [hsent]
      exact List.mem_append_left _ (List.mem_filterMap.mpr ⟨r, hr, htaken⟩)
    exact code_le_of_mem_sent hsignal
  constructor
  · exact sent_relay readings
  · exact ⟨unsent, hsent.trans (List.append_assoc _ _ _).symm, hall⟩
  · exact fun r _ => delivers supply r
  · exact presses_eq supply s events
  · intro r hr code htaken
    exact ⟨hcode r hr code htaken, isDown_round_of_taken (hcode r hr code htaken) htaken⟩
  · intro code
    constructor
    · intro hnotice
      obtain ⟨message, hfailed⟩ := mem_log_relay hnotice
      cases hfailed
    · exact fun r hr => noSuchKey_notMem_log_round (hcode r hr) code
  · rintro before later rfl hshutDown
    have htaken := (shutDown_iff_taken supply _).mp hshutDown
    obtain ⟨hlast, hlater, earlier, hfirst, hbefore⟩ := quit_taken_last hsent htaken
    have hpresses := presses_eq supply s before
    rw [hbefore] at hpresses
    exact ⟨earlier, hfirst, hbefore, hpresses, hlast, hlater⟩

/-- The keyboard's signals for any readings are sent to a run loop on a logical clock with nothing
in its mailbox, in any turns with its rounds. No notice tells of a key that does not exist; the keys
are pressed in order, each once, by the rounds that take their signals; and a round asks to shut
down only when it takes the last signal, that of the first reading that asks to quit. -/
theorem keys_typed_in_order {δ : Type} [Display δ] (supply : Supply) (s : RunLoop δ LogicalClock)
    (readings : List Reading) (turns : List Turn) (hempty : s.inbound.waiting = []) :
    s.Typed supply readings (s.sending supply (relay true readings).sent turns) := by
  obtain ⟨unsent, hsent, hall⟩ := accepted_sending supply s (relay true readings).sent turns
  have htaken := waiting_append_accepted supply s
    (s.sending supply (relay true readings).sent turns)
  rw [hempty, List.nil_append] at htaken
  rw [htaken, List.append_assoc] at hsent
  exact typed_of_sent hsent hall

/-- Two keys, one of them repeated, among readings that mean nothing, and then Escape; nothing comes
of the key after that. -/
theorem keys_typed_in_order_escape :
    let supply : Supply := ⟨fun _ => 0, Supply.heldKey⟩
    let s : RunLoop Recorder LogicalClock :=
      start (Machine.initial.install [0x12, 0x00]).state Recorder.new
        (Mailbox.new (some 2) false) ⟨0⟩ ⟨100, 50⟩
    let stroke (key : Key) (motion : Motion) : Reading :=
      .stroke ⟨key, ⟨false, false, false, false, false, false⟩, motion⟩
    let readings := [stroke (.char 'w') .pressed, .other, stroke (.char 'w') .released,
      stroke (.char 'E') .repeated, stroke .escape .pressed, stroke (.char 'r') .pressed]
    let turns := [.send, .send, .send, .round, .send, .round, .round, .send, .round]
    let events := [.offer (.key 5), .offer (.key 6), .round, .offer .quit, .round, .round, .hangUp,
      .round]
    s.inbound.waiting = [] ∧ s.sending supply (relay true readings).sent turns = events ∧
      s.presses supply events = [5, 6] ∧
      (s.after supply (events.take 5)).taken? supply = some .quit ∧
      s.Typed supply readings events := by
  intro supply s stroke readings turns events
  have hevents : s.sending supply (relay true readings).sent turns = events := by decide +kernel
  have hpresses : s.presses supply events = [5, 6] := by decide +kernel
  have hquit : (s.after supply (events.take 5)).taken? supply = some .quit := by decide +kernel
  refine ⟨rfl, hevents, hpresses, hquit, ?_⟩
  rw [← hevents]
  exact keys_typed_in_order supply s readings turns rfl

end RunLoop
end Chip8
