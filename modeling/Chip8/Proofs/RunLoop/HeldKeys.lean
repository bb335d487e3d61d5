import Chip8.Proofs.Keypad.Held
import Chip8.Proofs.RunLoop.Notices
import Chip8.Proofs.RunLoop.Presses

/-!
# The keys that a program sees

A key goes down at the end of the round that takes its signal, and all keys come up when they are
released, which a round does before its step. So the keys that are down are those whose signals have
been taken since the last release; `Recent` says this of the rounds of a history. Nothing else that
a round does changes the keypad. When the keys are released is not said here.
-/
namespace Chip8

namespace Machine

theorem keypad_install (m : Machine) (program : List UInt8) :
    (m.install program).state.keypad = m.keypad := by
  obtain ⟨memory, hinstall⟩ := m.install_state program
  rw [hinstall]

theorem keypad_installFrom (m : Machine) (reader : List Portion) :
    (m.installFrom reader).state.keypad = m.keypad := by
  unfold installFrom
  split
  · rfl
  · exact keypad_install m _

end Machine

namespace RunLoop

variable {δ κ : Type} {supply : Supply} {code : UInt8}

section

variable [Display δ]

theorem keypad_showPending (s : RunLoop δ κ) :
    s.showPending.state.machine.keypad = s.machine.keypad := by
  obtain ⟨taken, display, -, hstate⟩ := showTimes_state s.machine.pendingRedraws s
  rw [showPending, hstate]

end

variable [Clock κ]

/-- The run loop at the end of its wait, before it acts on what the wait ended with. -/
def waited (s : RunLoop δ κ) : RunLoop δ κ :=
  let wait := Clock.wait s.clock s.inbound s.deadline
  { s with clock := wait.clock, inbound := wait.mailbox }

theorem await_of_key {s : RunLoop δ κ}
    (h : (Clock.wait s.clock s.inbound s.deadline).ending.signal? = some (.key code)) :
    s.await = ⟨.ok .proceed, { s.waited with machine := s.machine.press code },
      Keypad.pressNotices code⟩ := by
  cases hending : (Clock.wait s.clock s.inbound s.deadline).ending with
  | arrival signal =>
    rw [hending] at h
    obtain rfl := Option.some.inj h
    rw [await, hending]
    rfl
  | deadline =>
    rw [hending] at h
    contradiction
  | deserted =>
    rw [hending] at h
    contradiction

theorem isDown_atStep_iff (s : RunLoop δ κ) (code : UInt8) :
    s.atStep.keypad.isDown code = true ↔
      s.machine.keypad.isDown code = true ∧ s.releasing.isDue (Clock.now s.clock) = false := by
  rw [atStep, releaseIfDue]
  cases s.releasing.isDue (Clock.now s.clock) with
  | false => exact (and_iff_left rfl).symm
  | true =>
    show Keypad.released.isDown code = true ↔ _
    rw [Keypad.isDown_released]
    simp

variable [Display δ] {s : RunLoop δ κ}

theorem keypad_prepare (supply : Supply) (s : RunLoop δ κ) :
    (s.prepare supply).state.machine.keypad = s.atStep.keypad := by
  obtain ⟨display, hstate⟩ := prepare_state supply s
  rw [hstate, Machine.run_append, Machine.run_takeRedraws]
  show (s.machine.run supply (s.duties (Clock.now s.clock))).keypad = _
  rw [run_duties, atStep, releaseIfDue_eq]
  dsimp only
  split
  · exact Machine.keypad_step supply _
  · rfl

/-- The one step of a round is that of the machine `atStep`, and only then do redraws and a press
follow. -/
theorem machine_round_of_step_due (hdue : s.stepping.isDue (Clock.now s.clock) = true)
    (supply : Supply) :
    ∃ rest, (s.round supply).state.machine = (s.atStep.step supply).state.run supply rest ∧
      ∀ op ∈ rest, op ≠ .step ∧ op ≠ .releaseKeys := by
  obtain ⟨rest, hops, hrest⟩ := operations_eq supply s
  refine ⟨rest, ?_, hrest⟩
  rw [machine_round, hops, Machine.run_append, run_duties, atStep, releaseIfDue_eq]
  simp only [hdue, if_true]

/-- A code that names no key is warned of, and beside that its round only waits. -/
theorem round_of_no_such_key (hcode : 0xF < code.toNat)
    (htaken : s.taken? supply = some (.key code)) :
    (s.round supply).state = (s.prepare supply).state.waited ∧
      Notice.warnings (s.round supply).log = [.noSuchKey code] := by
  cases hresult : (s.prepare supply).result with
  | error fault =>
    rw [taken?_of_error hresult] at htaken
    contradiction
  | ok answer =>
    rw [taken?_of_ok hresult] at htaken
    rw [round_of_prepare_ok hresult, await_of_key htaken]
    constructor
    · show { (s.prepare supply).state.waited with
          machine := (s.prepare supply).state.machine.press code } = _
      rw [Machine.press, Keypad.press_of_no_such_key hcode]
      rfl
    · show Notice.warnings ((s.prepare supply).log ++ Keypad.pressNotices code) = _
      have hbefore := warnings_prepare supply s
      rw [Notice.warnings] at hbefore ⊢
      rw [List.filter_append, hbefore, Keypad.pressNotices_of_no_such_key hcode]
      rfl

/-- The signal of the key was taken by one of the rounds `past`, and none of those after it began
with a release. A release in the round itself came before the signal. -/
def Recent (supply : Supply) (past : List (RunLoop δ κ)) (code : UInt8) : Prop :=
  code.toNat ≤ 0xF ∧ ∃ earlier r later, past = earlier ++ r :: later ∧
    r.taken? supply = some (.key code) ∧
    ∀ l ∈ later, l.releasing.isDue (Clock.now l.clock) = false

theorem not_recent_nil : ¬ Recent supply ([] : List (RunLoop δ κ)) code := by
  rintro ⟨-, earlier, r, later, hpast, -, -⟩
  simp at hpast

/-- One more round makes the key recent that it takes, and leaves the others so unless it releases
them. -/
theorem recent_concat {past : List (RunLoop δ κ)} :
    Recent supply (past ++ [s]) code ↔
      (code.toNat ≤ 0xF ∧ s.taken? supply = some (.key code)) ∨
        (Recent supply past code ∧ s.releasing.isDue (Clock.now s.clock) = false) := by
  constructor
  · rintro ⟨hcode, earlier, r, later, hpast, htaken, hquiet⟩
    rcases List.eq_nil_or_concat later with rfl | ⟨later, last, rfl⟩
    · obtain ⟨-, hlast⟩ := List.append_inj' hpast rfl
      rw [List.singleton_inj.mp hlast]
      exact .inl ⟨hcode, htaken⟩
    · rw [List.concat_eq_append] at hpast hquiet
      have hsplit : past ++ [s] = (earlier ++ r :: later) ++ [last] := by simpa using hpast
      obtain ⟨rfl, hlast⟩ := List.append_inj' hsplit rfl
      rw [List.singleton_inj.mp hlast]
      exact .inr ⟨⟨hcode, earlier, r, later, rfl, htaken,
          fun l hl => hquiet l (List.mem_append_left _ hl)⟩,
        hquiet last (List.mem_append_right _ List.mem_cons_self)⟩
  · rintro (⟨hcode, htaken⟩ | ⟨⟨hcode, earlier, r, later, rfl, htaken, hquiet⟩, hhere⟩)
    · exact ⟨hcode, past, s, [], rfl, htaken, by simp⟩
    · refine ⟨hcode, earlier, r, later ++ [s], by simp, htaken, ?_⟩
      intro l hl
      rcases List.mem_append.mp hl with hl | hl
      · exact hquiet l hl
      · rw [List.mem_singleton.mp hl]
        exact hhere

/-- After a round a key is down if the round took its signal, or found it down and did not release
it. -/
theorem isDown_round_iff (supply : Supply) (s : RunLoop δ κ) (code : UInt8) :
    (s.round supply).state.machine.keypad.isDown code = true ↔
      (code.toNat ≤ 0xF ∧ s.taken? supply = some (.key code)) ∨
        (s.machine.keypad.isDown code = true ∧
          s.releasing.isDue (Clock.now s.clock) = false) := by
  rw [← isDown_atStep_iff, ← keypad_prepare supply]
  cases hresult : (s.prepare supply).result with
  | error fault =>
    rw [round_of_prepare_error hresult, taken?_of_error hresult]
    simp
  | ok answer =>
    have hmachine := machine_await supply (s.prepare supply).state
    rw [← taken?_of_ok hresult] at hmachine
    rw [round_of_prepare_ok hresult]
    show (s.prepare supply).state.await.state.machine.keypad.isDown code = true ↔ _
    rw [hmachine]
    cases s.taken? supply with
    | none => simp [Machine.run]
    | some signal =>
      cases signal with
      | quit => simp [Machine.run, Signal.operations]
      | key pressed =>
        show (Keypad.press _ pressed).isDown code = true ↔ _
        rw [Keypad.isDown_press_iff, Option.some.injEq, Signal.key.injEq]

/-- The keys that are down are those pressed since the last release. -/
def ShowsRecent (supply : Supply) (past : List (RunLoop δ κ)) (s : RunLoop δ κ) : Prop :=
  ∀ code, s.machine.keypad.isDown code = true ↔ Recent supply past code

theorem showsRecent_round {past : List (RunLoop δ κ)} (h : s.ShowsRecent supply past) :
    (s.act supply .round).ShowsRecent supply (past ++ [s]) := by
  intro code
  rw [recent_concat, ← h code]
  exact isDown_round_iff supply s code

theorem showsRecent_after {past : List (RunLoop δ κ)} (h : s.ShowsRecent supply past)
    (events : List Event) :
    (s.after supply events).ShowsRecent supply (past ++ s.rounds supply events) := by
  -- each round joins those before it, so the history so far varies with the run loop
  induction events generalizing s past with
  | nil =>
    rw [rounds, List.append_nil]
    exact h
  | cons event events ih =>
    cases event with
    | offer signal => exact ih h
    | hangUp => exact ih h
    | round =>
      rw [rounds, List.append_cons]
      exact ih (showsRecent_round h)

/-- A run loop is started with a machine that has just been switched on and given a program, and
anything happens to it in any order. The keys that are down are those pressed since the last
release, and a program that waits for a key gets the lowest of them; for the one step of a round the
release of that round counts as well. Neither instructions nor loading nor showing the frame change
the keypad. A code that names no key leaves the run loop as the wait for it ended, and is the one
thing that its round warns of. -/
theorem keypad_shows_recent_presses {δ κ : Type} [Display δ] [Clock κ] (supply : Supply)
    (program : List UInt8) (display : δ) (inbound : Mailbox Signal) (clock : κ) (rates : Rates)
    (events : List Event) :
    let begun := start (Machine.initial.install program).state display inbound clock rates
    let past := begun.rounds supply events
    let s := begun.after supply events
    s.machine.keypad.Reports (Recent supply past) ∧
      s.atStep.keypad.Reports (fun code =>
        Recent supply past code ∧ s.releasing.isDue (Clock.now s.clock) = false) ∧
      (s.stepping.isDue (Clock.now s.clock) = true →
        ∃ rest, (s.round supply).state.machine = (s.atStep.step supply).state.run supply rest ∧
          ∀ op ∈ rest, op ≠ .step ∧ op ≠ .releaseKeys) ∧
      (∀ (m : Machine) ins, (m.execute supply ins).state.keypad = m.keypad) ∧
      (∀ (m : Machine) program, (m.install program).state.keypad = m.keypad) ∧
      (∀ (m : Machine) reader, (m.installFrom reader).state.keypad = m.keypad) ∧
      (∀ r : RunLoop δ κ, r.showPending.state.machine.keypad = r.machine.keypad) ∧
      ∀ (r : RunLoop δ κ) code, r.taken? supply = some (.key code) → 0xF < code.toNat →
        (r.round supply).state = (r.prepare supply).state.waited ∧
          Notice.warnings (r.round supply).log = [.noSuchKey code] := by
  intro begun past s
  have hbegun : begun.ShowsRecent supply [] := by
    intro code
    show (Machine.initial.install program).state.keypad.isDown code = true ↔ _
    rw [Machine.keypad_install]
    show Keypad.released.isDown code = true ↔ _
    rw [Keypad.isDown_released]
    exact iff_of_false Bool.false_ne_true not_recent_nil
  have hafter : s.ShowsRecent supply past := showsRecent_after hbegun events
  refine ⟨Keypad.reports_of_isDown_iff hafter, Keypad.reports_of_isDown_iff fun code => ?_,
    fun hdue => machine_round_of_step_due hdue supply, Machine.keypad_execute supply,
    Machine.keypad_install, Machine.keypad_installFrom, keypad_showPending,
    fun r code htaken hcode => round_of_no_such_key hcode htaken⟩
  rw [isDown_atStep_iff, hafter code]

/-- Two keys and a code that names none, one after the other. -/
theorem keypad_shows_recent_presses_two_keys :
    let supply : Supply := ⟨fun _ => 0, Supply.heldKey⟩
    let begun : RunLoop Recorder LogicalClock :=
      start (Machine.initial.install [0x12, 0x00]).state Recorder.new
        (Mailbox.new (some inputCapacity) false) ⟨0⟩ ⟨100, 50⟩
    let events := [.offer (.key 7), .offer (.key 3), .offer (.key 0x10), .round, .round]
    let past := begun.rounds supply events
    let s := begun.after supply events
    Recent supply past 7 ∧ Recent supply past 3 ∧
      Supply.heldKey 0 s.machine.keypad = some 3 ∧
      s.taken? supply = some (.key 0x10) ∧
      Notice.warnings (s.round supply).log = [.noSuchKey 0x10] := by
  intro supply begun events past s
  have hdown : s.machine.keypad.isDown 7 = true ∧ s.machine.keypad.isDown 3 = true ∧
      Supply.heldKey 0 s.machine.keypad = some 3 := by decide +kernel
  have htaken : s.taken? supply = some (.key 0x10) := by decide +kernel
  subst s past begun
  obtain ⟨hkeys, -, -, -, -, -, -, hwarned⟩ := keypad_shows_recent_presses supply [0x12, 0x00]
    Recorder.new (Mailbox.new (some inputCapacity) false) (LogicalClock.mk 0) ⟨100, 50⟩ events
  exact ⟨(hkeys.isDown_iff 7).mp hdown.1, (hkeys.isDown_iff 3).mp hdown.2.1, hdown.2.2, htaken,
    (hwarned _ 0x10 htaken (by decide)).2⟩

end RunLoop
end Chip8
