import Chip8.Proofs.Keyboard.Block

/-!
# Where relaying stops

While somebody listens, relaying goes on to the first reading that asks to quit, and what is sent is
what the readings mean, cut behind the first signal to quit. With nobody listening it goes on to the
first reading that means anything, and nothing is sent. No reading behind that one is looked at. A
run loop that goes away while readings are relayed is not covered.
-/
namespace Chip8

/-- The signals as far as the first to quit, that one included. -/
def Signal.upToQuit : List Signal → List Signal
  | [] => []
  | .quit :: _ => [.quit]
  | .key code :: signals => .key code :: upToQuit signals

namespace Keyboard

namespace Reading

/-- These notices are that the reading failed, if it did, and otherwise none. -/
def NotesFailure (reading : Reading) (notices : List Notice) : Prop :=
  (∀ message, reading = .failed message → notices = [.readFailed message]) ∧
    ((∀ message, reading ≠ .failed message) → notices = [])

theorem notesFailure_notices (reading : Reading) : reading.NotesFailure reading.notices := by
  constructor
  · rintro message rfl
    rfl
  · intro hworked
    cases reading with
    | failed message => exact absurd rfl (hworked message)
    | stroke s => rfl
    | other => rfl

theorem notices_of_not_quits {reading : Reading} (h : ¬ reading.Quits) : reading.notices = [] :=
  reading.notesFailure_notices.2 fun _ hfailed => h (hfailed ▸ trivial)

/-- A reading means the signal of a key that is pressed or repeated, or to quit if it failed. -/
theorem signal_eq_some_iff {reading : Reading} {signal : Signal} :
    reading.signal = some signal ↔
      (∃ s, reading = .stroke s ∧ s.motion ≠ .released ∧ s.signal = some signal) ∨
        ∃ message, reading = .failed message ∧ signal = .quit := by
  cases reading with
  | stroke s => simp [Reading.signal]
  | other => simp [Reading.signal]
  | failed message => simp [Reading.signal, eq_comm]

end Reading

variable {reading : Reading} {earlier later readings : List Reading}

theorem sent_relay_eq_upToQuit (readings : List Reading) :
    (relay true readings).sent = Signal.upToQuit (readings.filterMap Reading.signal) := by
  induction readings with
  | nil => rfl
  | cons reading readings ih =>
    cases hsignal : reading.signal with
    | none => rw [relay_of_none hsignal, List.filterMap_cons_none hsignal, ih]
    | some signal =>
      rw [List.filterMap_cons_some hsignal]
      cases signal with
      | quit => rw [relay_of_quit hsignal, Signal.upToQuit]
      | key code => rw [relay_of_key hsignal, Signal.upToQuit, ih]

/-- Readings that do not ask to quit are passed over without a notice. -/
theorem relay_append (h : ∀ r ∈ earlier, ¬ r.Quits) (readings : List Reading) :
    relay true (earlier ++ readings) =
      { relay true readings with
        sent := earlier.filterMap Reading.signal ++ (relay true readings).sent } := by
  induction earlier with
  | nil => rfl
  | cons reading earlier ih =>
    obtain ⟨hreading, hearlier⟩ := List.forall_mem_cons.mp h
    rw [List.cons_append]
    cases hsignal : reading.signal with
    | none => rw [relay_of_none hsignal, List.filterMap_cons_none hsignal, ih hearlier]
    | some signal =>
      cases signal with
      | quit => exact absurd (Reading.signal_eq_quit_iff.mp hsignal) hreading
      | key code =>
        rw [relay_of_key hsignal, List.filterMap_cons_some hsignal, ih hearlier,
          Reading.notices_of_not_quits hreading]
        rfl

theorem relay_of_quits (h : reading.Quits) (readings : List Reading) :
    relay true (reading :: readings) = ⟨[.quit], reading.notices, .quit, readings⟩ :=
  relay_of_quit (Reading.signal_eq_quit_iff.mpr h) readings

/-- What comes of relaying the readings to somebody who listens. -/
structure SendsPrefix (readings : List Reading) (r : Relayed) : Prop where
  sent : r.sent = Signal.upToQuit (readings.filterMap Reading.signal)
  /-- Without a reading that asks to quit, all are looked at and nothing is noted. -/
  all : (∀ reading ∈ readings, ¬ reading.Quits) → r.unread = [] ∧ r.notices = []
  /-- The first reading that asks to quit is the last to be looked at and the only one noted. -/
  stops : ∀ earlier reading later, readings = earlier ++ reading :: later →
    (∀ e ∈ earlier, ¬ e.Quits) → reading.Quits →
      r.unread = later ∧ reading.NotesFailure r.notices

theorem sendsPrefix_relay (readings : List Reading) :
    SendsPrefix readings (relay true readings) := by
  constructor
  case sent => exact sent_relay_eq_upToQuit readings
  case all =>
    intro hnone
    rw [← List.append_nil readings, relay_append hnone]
    exact ⟨rfl, rfl⟩
  case stops =>
    rintro earlier reading later rfl hearlier hquits
    rw [relay_append hearlier, relay_of_quits hquits]
    have hnotices : (⟨earlier.filterMap Reading.signal ++ [.quit], reading.notices, .quit,
        later⟩ : Relayed).notices = reading.notices := List.append_nil _
    rw [hnotices]
    exact ⟨rfl, reading.notesFailure_notices⟩

theorem relay_skip (h : ∀ r ∈ earlier, r.signal = none) (listening : Bool)
    (readings : List Reading) : relay listening (earlier ++ readings) = relay listening readings := by
  induction earlier with
  | nil => rfl
  | cons reading earlier ih =>
    obtain ⟨hreading, hearlier⟩ := List.forall_mem_cons.mp h
    rw [List.cons_append, relay_of_none hreading, ih hearlier]

theorem relay_unheard (h : reading.signal ≠ none) (readings : List Reading) :
    relay false (reading :: readings) = ⟨[], reading.notices, .unheard, readings⟩ := by
  obtain ⟨signal, hsignal⟩ := Option.ne_none_iff_exists'.mp h
  rw [relay, hsignal]
  rfl

theorem sent_relay_false (readings : List Reading) : (relay false readings).sent = [] := by
  induction readings with
  | nil => rfl
  | cons reading readings ih =>
    cases hsignal : reading.signal with
    | none => rw [relay_of_none hsignal, ih]
    | some signal => rw [relay_unheard (by rw [hsignal]; exact Option.some_ne_none signal)]

/-- What comes of relaying the readings when nobody listens. -/
structure SendsNothing (readings : List Reading) (r : Relayed) : Prop where
  sent : r.sent = []
  /-- If no reading means anything, all are looked at and nothing is noted. -/
  all : (∀ reading ∈ readings, reading.signal = none) → r.unread = [] ∧ r.notices = []
  /-- The first reading that means anything is the last to be looked at, and then it is noted that
  nobody listens. -/
  stops : ∀ earlier reading later, readings = earlier ++ reading :: later →
    (∀ e ∈ earlier, e.signal = none) → reading.signal ≠ none →
      r.unread = later ∧
        ∃ failure, reading.NotesFailure failure ∧ r.notices = failure ++ [.runLoopGone]

theorem sendsNothing_relay (readings : List Reading) :
    SendsNothing readings (relay false readings) := by
  constructor
  case sent => exact sent_relay_false readings
  case all =>
    intro hnone
    rw [← List.append_nil readings, relay_skip hnone]
    exact ⟨rfl, rfl⟩
  case stops =>
    rintro earlier reading later rfl hearlier hmeans
    rw [relay_skip hearlier, relay_unheard hmeans]
    exact ⟨rfl, reading.notices, reading.notesFailure_notices, rfl⟩

/-- Which strokes and readings mean which signals. -/
structure KeysMean : Prop where
  quit : ∀ s : Stroke, s.signal = some .quit ↔ s.IsQuit
  key : ∀ (s : Stroke) (code : UInt8), s.signal = some (.key code) ↔
    s.modifiers.control = false ∧ ∃ c, s.key = .char c ∧ StandsFor c code
  code_le : ∀ c code, StandsFor c code → code.toNat ≤ 0xF
  every_code : ∀ code : UInt8, code.toNat ≤ 0xF → ∃! lower, InBlock lower code
  reading : ∀ (r : Reading) (signal : Signal), r.signal = some signal ↔
    (∃ s, r = .stroke s ∧ s.motion ≠ .released ∧ s.signal = some signal) ∨
      ∃ message, r = .failed message ∧ signal = .quit

theorem keysMean : KeysMean where
  quit _ := Stroke.signal_eq_quit_iff
  key _ _ := Stroke.signal_eq_key_iff
  code_le _ _ := StandsFor.code_le
  every_code _ := existsUnique_inBlock
  reading _ _ := Reading.signal_eq_some_iff

/-- Keys mean what the block says. The meanings of the readings are sent in order as far as the
first to quit, and nothing is sent if nobody listens. -/
theorem relay_sends_mapped_prefix (readings : List Reading) :
    KeysMean ∧ SendsPrefix readings (relay true readings) ∧
      SendsNothing readings (relay false readings) :=
  ⟨keysMean, sendsPrefix_relay readings, sendsNothing_relay readings⟩

/-- A key that is let go, an upper-case W and a failure, in front of one more key. -/
theorem relay_sends_mapped_prefix_failed_reading :
    let plain : Modifiers := ⟨false, false, false, false, false, false⟩
    let ignored : Reading := .stroke ⟨.char '1', plain, .released⟩
    let pressed : Reading := .stroke ⟨.char 'W', { plain with shift := true }, .pressed⟩
    let failed : Reading := .failed "tty gone"
    let unread : Reading := .stroke ⟨.char 'e', plain, .pressed⟩
    let readings := [ignored, pressed, failed, unread]
    (relay true readings).sent = [.key 0x5, .quit] ∧ (relay true readings).unread = [unread] ∧
      (relay true readings).notices = [.readFailed "tty gone"] ∧
      (relay false [ignored, failed, unread]).notices =
        [.readFailed "tty gone", .runLoopGone] := by
  intro plain ignored pressed failed unread readings
  obtain ⟨-, hheard, -⟩ := relay_sends_mapped_prefix readings
  obtain ⟨-, -, hunheard⟩ := relay_sends_mapped_prefix [ignored, failed, unread]
  have hkeys : ∀ e ∈ [ignored, pressed], ¬ e.Quits := by
    simp [ignored, pressed, Reading.Quits, Stroke.IsQuit]
  have hignored : ∀ e ∈ [ignored], e.signal = none := by simp [ignored, Reading.signal]
  obtain ⟨hunread, hnoted, -⟩ := hheard.stops [ignored, pressed] failed [unread] rfl hkeys trivial
  obtain ⟨-, failure, ⟨hfailure, -⟩, hnotices⟩ :=
    hunheard.stops [ignored] failed [unread] rfl hignored (by simp [failed, Reading.signal])
  refine ⟨hheard.sent.trans rfl, hunread, hnoted "tty gone" rfl, ?_⟩
  rw [hnotices, hfailure "tty gone" rfl]
  rfl

end Keyboard
end Chip8
