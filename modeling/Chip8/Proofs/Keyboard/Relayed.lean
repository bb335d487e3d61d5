import Chip8.Keyboard.Relay

/-!
# What the keyboard sends

A reading asks to quit if it failed or tells of Escape or Control-C. While somebody listens, the
signals of all readings before the first of these are sent, and then the one to quit, which is the
last: `sent_relay`. Every key that is sent is one of the keypad's. Which key of the keyboard stands
for which key of the keypad is not said here.
-/
namespace Chip8.Keyboard

variable {code : UInt8}

theorem code_le_of_keypadCode {c : Char} (h : keypadCode c = some code) : code.toNat ≤ 0xF := by
  unfold keypadCode at h
  split at h <;> cases h <;> decide

namespace Stroke

variable {s : Stroke}

/-- Escape without Control, or a C with it. -/
def IsQuit (s : Stroke) : Prop :=
  (s.key = .escape ∧ s.modifiers.control = false) ∨
    ((s.key = .char 'c' ∨ s.key = .char 'C') ∧ s.modifiers.control = true)

theorem signal_eq_quit_iff : s.signal = some .quit ↔ s.IsQuit := by
  unfold signal IsQuit
  cases s.modifiers.control with
  | true =>
    rw [if_pos rfl]
    split
    · next hkey => simp [hkey]
    · next hkey => simp [hkey]
    · next hlower hupper =>
      have hkey : ¬ (s.key = .char 'c' ∨ s.key = .char 'C') := not_or.mpr ⟨hlower, hupper⟩
      simp [hkey]
  | false =>
    rw [if_neg Bool.false_ne_true]
    cases s.key with
    | escape => simp
    | char c => simp
    | other name => simp

theorem code_le_of_signal (h : s.signal = some (.key code)) : code.toNat ≤ 0xF := by
  unfold signal at h
  split at h
  · split at h <;> cases h
  · split at h
    · cases h
    · obtain ⟨_, hcode, hkey⟩ := Option.map_eq_some_iff.mp h
      cases hkey
      exact code_le_of_keypadCode hcode
    · cases h

end Stroke

namespace Reading

variable {reading : Reading}

/-- The reading asks to quit: it failed, or the keys for that were pressed or repeated. -/
def Quits : Reading → Prop
  | stroke s => s.motion ≠ .released ∧ s.IsQuit
  | other => False
  | failed _ => True

theorem signal_eq_quit_iff : reading.signal = some .quit ↔ reading.Quits := by
  cases reading with
  | stroke s =>
    rw [signal, Quits, ← Stroke.signal_eq_quit_iff]
    by_cases hreleased : s.motion = .released
    · simp [hreleased]
    · simp [hreleased]
  | other => exact iff_of_false (by simp [signal]) id
  | failed message => exact iff_of_true rfl trivial

theorem code_le_of_signal (h : reading.signal = some (.key code)) : code.toNat ≤ 0xF := by
  cases reading with
  | stroke s =>
    rw [signal] at h
    split at h
    · cases h
    · exact Stroke.code_le_of_signal h
  | other => cases h
  | failed message => cases h

/-- The first of the readings that asks to quit is the one right behind `earlier`. -/
def QuitsAfter (earlier readings : List Reading) : Prop :=
  (∀ r ∈ earlier, ¬ r.Quits) ∧
    ∃ reading later, readings = earlier ++ reading :: later ∧ reading.Quits

theorem quitsAfter_nil {later : List Reading} (h : reading.Quits) :
    QuitsAfter [] (reading :: later) :=
  ⟨by simp, reading, later, rfl, h⟩

theorem quitsAfter_cons {earlier readings : List Reading} (hnot : ¬ reading.Quits)
    (h : QuitsAfter earlier readings) : QuitsAfter (reading :: earlier) (reading :: readings) := by
  obtain ⟨hearlier, quitting, later, rfl, hquits⟩ := h
  exact ⟨List.forall_mem_cons.mpr ⟨hnot, hearlier⟩, quitting, later, rfl, hquits⟩

/-- Readings none of which asks to quit have no signal to quit. -/
theorem quit_notMem_signals {readings : List Reading} (h : ∀ r ∈ readings, ¬ r.Quits) :
    .quit ∉ readings.filterMap signal := by
  intro hmem
  obtain ⟨r, hr, hsignal⟩ := List.mem_filterMap.mp hmem
  exact h r hr (signal_eq_quit_iff.mp hsignal)

end Reading

theorem relay_of_none {reading : Reading} (h : reading.signal = none) (listening : Bool)
    (readings : List Reading) : relay listening (reading :: readings) = relay listening readings := by
  rw [relay, h]

theorem relay_of_quit {reading : Reading} (h : reading.signal = some .quit)
    (readings : List Reading) :
    relay true (reading :: readings) = ⟨[.quit], reading.notices, .quit, readings⟩ := by
  rw [relay, h]
  rfl

theorem relay_of_key {reading : Reading} (h : reading.signal = some (.key code))
    (readings : List Reading) :
    relay true (reading :: readings) =
      { relay true readings with
        sent := .key code :: (relay true readings).sent
        log := reading.notices ++ (relay true readings).log } := by
  rw [relay, h]
  rfl

/-- Unless a reading asks to quit, its signal is sent, if it has one, and relaying goes on. -/
theorem sent_relay_cons {reading : Reading} (h : ¬ reading.Quits) (readings : List Reading) :
    (relay true (reading :: readings)).sent =
      reading.signal.toList ++ (relay true readings).sent := by
  rw [← Reading.signal_eq_quit_iff] at h
  cases hsignal : reading.signal with
  | none =>
    rw [relay_of_none hsignal]
    rfl
  | some signal =>
    cases signal with
    | key code =>
      rw [relay_of_key hsignal]
      rfl
    | quit => exact absurd hsignal h

/-- Either no reading asks to quit and every signal is sent, or the signals are sent of those before
the first that does, and then the one to quit. -/
theorem sent_relay (readings : List Reading) :
    (∀ r ∈ readings, ¬ r.Quits) ∧ (relay true readings).sent = readings.filterMap Reading.signal ∨
      ∃ earlier, Reading.QuitsAfter earlier readings ∧
        (relay true readings).sent = earlier.filterMap Reading.signal ++ [.quit] := by
  induction readings with
  | nil => exact .inl ⟨by simp, rfl⟩
  | cons reading readings ih =>
    by_cases hquits : reading.Quits
    · refine .inr ⟨[], Reading.quitsAfter_nil hquits, ?_⟩
      rw [relay_of_quit (Reading.signal_eq_quit_iff.mpr hquits)]
      rfl
    · have hcons : ∀ more : List Reading, (reading :: more).filterMap Reading.signal =
          reading.signal.toList ++ more.filterMap Reading.signal := by
        intro more
        rw [List.filterMap_cons]
        cases reading.signal <;> rfl
      rw [sent_relay_cons hquits]
      rcases ih with ⟨hnone, hall⟩ | ⟨earlier, hfirst, hbefore⟩
      · exact .inl ⟨List.forall_mem_cons.mpr ⟨hquits, hnone⟩, by rw [hall, hcons]⟩
      · refine .inr ⟨reading :: earlier, Reading.quitsAfter_cons hquits hfirst, ?_⟩
        rw [hbefore, hcons, List.append_assoc]

/-- A signal to quit is the last that is sent, and comes right behind the signals of the readings
before the first that asks to quit. -/
theorem quit_last_sent {readings : List Reading} {before rest : List Signal}
    (h : (relay true readings).sent = before ++ .quit :: rest) :
    rest = [] ∧ ∃ earlier, Reading.QuitsAfter earlier readings ∧
      before = earlier.filterMap Reading.signal := by
  rcases sent_relay readings with ⟨hnone, hsent⟩ | ⟨earlier, hfirst, hsent⟩
  · have hmem : .quit ∈ readings.filterMap Reading.signal := by
      rw [← hsent, h]
      exact List.mem_append_right _ List.mem_cons_self
    exact absurd hmem (Reading.quit_notMem_signals hnone)
  · have hnot := Reading.quit_notMem_signals hfirst.1
    rw [hsent] at h
    rcases List.append_eq_append_iff.mp h with ⟨between, hbefore, hlast⟩ | ⟨between, hearlier, hlast⟩
    · rcases between with _ | ⟨signal, between⟩
      · rw [List.append_nil] at hbefore
        exact ⟨(List.cons.inj hlast).2.symm, earlier, hfirst, hbefore⟩
      · have hlength := congrArg List.length hlast
        simp at hlength
    · rcases between with _ | ⟨signal, between⟩
      · rw [List.append_nil] at hearlier
        exact ⟨(List.cons.inj hlast).2, earlier, hfirst, hearlier.symm⟩
      · -- then a signal to quit would stand among those of the earlier readings
        rw [hearlier, ← (List.cons.inj hlast).1] at hnot
        exact absurd (List.mem_append_right _ List.mem_cons_self) hnot

/-- Every key that is sent is one of the keypad's. -/
theorem code_le_of_mem_sent {readings : List Reading} (h : .key code ∈ (relay true readings).sent) :
    code.toNat ≤ 0xF := by
  have hsignals : ∀ readings : List Reading, .key code ∈ readings.filterMap Reading.signal →
      code.toNat ≤ 0xF := by
    intro readings hmem
    obtain ⟨r, -, hsignal⟩ := List.mem_filterMap.mp hmem
    exact Reading.code_le_of_signal hsignal
  rcases sent_relay readings with ⟨-, hsent⟩ | ⟨earlier, -, hsent⟩
  · rw [hsent] at h
    exact hsignals readings h
  · rw [hsent] at h
    rcases List.mem_append.mp h with h | h
    · exact hsignals earlier h
    · cases List.mem_singleton.mp h

/-- Relaying notes nothing but readings that failed. -/
theorem mem_log_relay {readings : List Reading} {notice : Notice}
    (h : notice ∈ (relay true readings).log) : ∃ message, notice = .readFailed message := by
  have hnotices : ∀ reading : Reading, notice ∈ reading.notices →
      ∃ message, notice = .readFailed message := by
    intro reading hmem
    cases reading with
    | failed message => exact ⟨message, List.mem_singleton.mp hmem⟩
    | stroke s => cases hmem
    | other => cases hmem
  induction readings with
  | nil => cases h
  | cons reading readings ih =>
    cases hsignal : reading.signal with
    | none =>
      rw [relay_of_none hsignal] at h
      exact ih h
    | some signal =>
      cases signal with
      | quit =>
        rw [relay_of_quit hsignal] at h
        exact hnotices reading h
      | key code =>
        rw [relay_of_key hsignal] at h
        rcases List.mem_append.mp h with h | h
        · exact hnotices reading h
        · exact ih h

end Chip8.Keyboard
