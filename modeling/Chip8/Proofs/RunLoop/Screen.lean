import Chip8.Proofs.Display.Reading
import Chip8.Proofs.Machine.Effect
import Chip8.Proofs.RunLoop.Event

/-!
# The screen is never stale

Between rounds a display that works shows the machine's frame and no request is pending. A round
takes at most one step, so it asks for at most one redraw, and it serves that one before it waits.
`Shows` counts the redraws of a history. That a display which fails comes to show the frame later is
not covered.
-/
namespace Chip8.RunLoop

variable {δ κ : Type}

theorem releaseIfDue_picture (s : RunLoop δ κ) (now : Nat) :
    (s.releaseIfDue now).display = s.display ∧
      (s.releaseIfDue now).machine.frame = s.machine.frame ∧
      (s.releaseIfDue now).machine.pendingRedraws = s.machine.pendingRedraws ∧
      (s.releaseIfDue now).stepping = s.stepping := by
  unfold releaseIfDue
  split
  · exact ⟨rfl, rfl, rfl, rfl⟩
  · exact ⟨rfl, rfl, rfl, rfl⟩

theorem stepIfDue_of_not_draws {supply : Supply} {s : RunLoop δ κ} {now : Nat}
    (h : (s.stepping.isDue now && s.machine.stepDraws supply) = false) :
    (s.stepIfDue supply now).state.display = s.display ∧
      (s.stepIfDue supply now).state.machine.frame = s.machine.frame ∧
      (s.stepIfDue supply now).state.machine.pendingRedraws = s.machine.pendingRedraws ∧
      .redrawDropped ∉ (s.stepIfDue supply now).log := by
  unfold stepIfDue
  split
  · next hdue =>
    rw [hdue, Bool.true_and] at h
    obtain ⟨hframe, hpending, hlog⟩ := Machine.step_of_not_draws h
    exact ⟨rfl, hframe, hpending, hlog⟩
  · exact ⟨rfl, rfl, rfl, List.not_mem_nil⟩

theorem stepIfDue_of_draws {supply : Supply} {s : RunLoop δ κ} {now : Nat}
    (h : (s.stepping.isDue now && s.machine.stepDraws supply) = true)
    (hroom : s.machine.pendingRedraws < 5) :
    (s.stepIfDue supply now).result = .ok () ∧
      (s.stepIfDue supply now).state.display = s.display ∧
      (s.stepIfDue supply now).state.machine.pendingRedraws = s.machine.pendingRedraws + 1 ∧
      .redrawDropped ∉ (s.stepIfDue supply now).log := by
  obtain ⟨hdue, hdraws⟩ := Bool.and_eq_true_iff.mp h
  obtain ⟨hok, hpending, hlog⟩ := Machine.step_of_draws hdraws hroom
  rw [stepIfDue, if_pos hdue]
  exact ⟨hok, rfl, hpending, hlog⟩

section

variable [Clock κ]

theorem await_picture (s : RunLoop δ κ) :
    s.await.state.display = s.display ∧ s.await.state.machine.frame = s.machine.frame ∧
      s.await.state.machine.pendingRedraws = s.machine.pendingRedraws ∧
      .redrawDropped ∉ s.await.log := by
  unfold await wakeUp
  dsimp only
  split
  · next code _ =>
    refine ⟨rfl, rfl, rfl, ?_⟩
    show Notice.redrawDropped ∉ Keypad.pressNotices code
    unfold Keypad.pressNotices
    split <;> simp
  · exact ⟨rfl, rfl, rfl, List.not_mem_nil⟩
  · exact ⟨rfl, rfl, rfl, List.not_mem_nil⟩
  · split
    · exact ⟨rfl, rfl, rfl, List.not_mem_nil⟩
    · exact ⟨rfl, rfl, rfl, by simp⟩

/-- Whether a round that begins here carries out an instruction that draws. -/
def draws (supply : Supply) (s : RunLoop δ κ) : Bool :=
  s.stepping.isDue (Clock.now s.clock) &&
    (s.releaseIfDue (Clock.now s.clock)).machine.stepDraws supply

theorem doDue_of_not_draws {supply : Supply} {s : RunLoop δ κ} (h : s.draws supply = false) :
    (s.doDue supply).state.display = s.display ∧
      (s.doDue supply).state.machine.frame = s.machine.frame ∧
      (s.doDue supply).state.machine.pendingRedraws = s.machine.pendingRedraws ∧
      .redrawDropped ∉ (s.doDue supply).log := by
  obtain ⟨hdisplay, hframe, hpending, hstepping⟩ := releaseIfDue_picture s (Clock.now s.clock)
  rw [draws, ← hstepping] at h
  obtain ⟨hdisplay', hframe', hpending', hlog⟩ := stepIfDue_of_not_draws h
  exact ⟨hdisplay'.trans hdisplay, hframe'.trans hframe, hpending'.trans hpending, hlog⟩

theorem doDue_of_draws {supply : Supply} {s : RunLoop δ κ} (h : s.draws supply = true)
    (hnone : s.machine.pendingRedraws = 0) :
    (s.doDue supply).result = .ok () ∧ (s.doDue supply).state.display = s.display ∧
      (s.doDue supply).state.machine.pendingRedraws = 1 ∧
      .redrawDropped ∉ (s.doDue supply).log := by
  obtain ⟨hdisplay, -, hpending, hstepping⟩ := releaseIfDue_picture s (Clock.now s.clock)
  rw [hnone] at hpending
  rw [draws, ← hstepping] at h
  obtain ⟨hok, hdisplay', hpending', hlog⟩ := stepIfDue_of_draws h (by omega)
  rw [hpending] at hpending'
  exact ⟨hok, hdisplay'.trans hdisplay, hpending', hlog⟩

end

variable [Display δ]

/-- The display shows what it should, and nobody has asked it for more. -/
structure InSync (reading : Display.Reading δ) (s : RunLoop δ κ) : Prop where
  works : reading.works s.display
  shown_eq : reading.shown s.display = s.machine.frame
  no_pending : s.machine.pendingRedraws = 0

/-- From `s` to `t` the display was shown `count` frames, the last one still being current. -/
structure Shows (reading : Display.Reading δ) (s t : RunLoop δ κ) (count : Nat) : Prop where
  inSync : t.InSync reading
  flushes_eq : reading.flushes t.display = reading.flushes s.display + count
  writes_eq : reading.writes t.display = reading.writes s.display + 2048 * count

variable {reading : Display.Reading δ} {s t u : RunLoop δ κ} {m n : Nat}

theorem InSync.shows_zero (h : s.InSync reading) : Shows reading s s 0 := ⟨h, rfl, rfl⟩

theorem Shows.trans (hst : Shows reading s t m) (htu : Shows reading t u n) :
    Shows reading s u (m + n) where
  inSync := htu.inSync
  flushes_eq := by
    rw [htu.flushes_eq, hst.flushes_eq, Nat.add_assoc]
  writes_eq := by
    rw [htu.writes_eq, hst.writes_eq, Nat.mul_add, Nat.add_assoc]

theorem Shows.before (h : Shows reading t u n) (hdisplay : t.display = s.display) :
    Shows reading s u n := by
  refine ⟨h.inSync, ?_, ?_⟩
  · rw [h.flushes_eq, hdisplay]
  · rw [h.writes_eq, hdisplay]

theorem Shows.behind (h : Shows reading s t n) (hdisplay : u.display = t.display)
    (hframe : u.machine.frame = t.machine.frame)
    (hpending : u.machine.pendingRedraws = t.machine.pendingRedraws) : Shows reading s u n := by
  obtain ⟨⟨hworks, hshown, hnone⟩, hflushes, hwrites⟩ := h
  rw [← hdisplay] at hworks hshown hflushes hwrites
  exact ⟨⟨hworks, hshown.trans hframe.symm, hpending.trans hnone⟩, hflushes, hwrites⟩

theorem showTimes_of_render {machine : Machine} {display : δ}
    (htake : s.machine.takeRedraw? = some machine)
    (hrender : machine.frame.render s.display = (.ok (), display)) :
    s.showTimes (n + 1) = showTimes n { s with machine := machine, display := display } := by
  rw [showTimes, htake]
  simp only [hrender]

/-- Every request is served with the frame as it is. Without any, the display has to show it
already. -/
theorem showTimes_works (hworks : reading.works s.display) (hn : s.machine.pendingRedraws = n)
    (hshown : n = 0 → reading.shown s.display = s.machine.frame) :
    ∃ t, s.showTimes n = .done () t ∧ Shows reading s t n := by
  induction n generalizing s with
  | zero => exact ⟨s, rfl, ⟨hworks, hshown rfl, hn⟩, rfl, rfl⟩
  | succ n ih =>
    have htake : s.machine.takeRedraw? = some { s.machine with pendingRedraws := n } := by
      rw [Machine.takeRedraw?, if_neg (by omega), hn]
      rfl
    obtain ⟨display, hrender, hworks', hshown', hwrites, hflushes⟩ :=
      Frame.render_works reading s.machine.frame hworks
    let served : RunLoop δ κ :=
      { s with machine := { s.machine with pendingRedraws := n }, display := display }
    have hfirst : s.showTimes (n + 1) = served.showTimes n := showTimes_of_render htake hrender
    obtain ⟨t, hrest, hshows⟩ := ih (s := served) hworks' rfl fun _ => hshown'
    refine ⟨t, hfirst.trans hrest, hshows.inSync, ?_, ?_⟩
    · have hf : reading.flushes served.display = reading.flushes s.display + 1 := hflushes
      rw [hshows.flushes_eq, hf]
      omega
    · have hw : reading.writes served.display = reading.writes s.display + 2048 := hwrites
      rw [hshows.writes_eq, hw]
      omega

variable [Clock κ]

/-- Once what is due has been done, a round serves the requests and waits. -/
theorem round_shows_of_ok {supply : Supply} (hok : (s.doDue supply).result = .ok ())
    (hlog : .redrawDropped ∉ (s.doDue supply).log)
    (hworks : reading.works (s.doDue supply).state.display)
    (hn : (s.doDue supply).state.machine.pendingRedraws = n)
    (hshown : n = 0 → reading.shown (s.doDue supply).state.display =
      (s.doDue supply).state.machine.frame) :
    Shows reading (s.doDue supply).state (s.round supply).state n ∧
      .redrawDropped ∉ (s.round supply).log := by
  obtain ⟨t, hserved, hshows⟩ := showTimes_works hworks hn hshown
  obtain ⟨hdisplay, hframe, hpending, hquiet⟩ := await_picture t
  rw [round_of_ok hok, showPending, hn, hserved]
  refine ⟨hshows.behind hdisplay hframe hpending, ?_⟩
  show .redrawDropped ∉ (s.doDue supply).log ++ ([] ++ t.await.log)
  rw [List.nil_append, List.mem_append]
  rintro (hin | hin)
  · exact hlog hin
  · exact hquiet hin

/-- A round shows one frame if its step draws, and none otherwise, and drops no request. -/
theorem round_shows (h : s.InSync reading) (supply : Supply) :
    Shows reading s (s.round supply).state (if s.draws supply then 1 else 0) ∧
      .redrawDropped ∉ (s.round supply).log := by
  cases hdraws : s.draws supply with
  | true =>
    obtain ⟨hok, hdisplay, hpending, hlog⟩ := doDue_of_draws hdraws h.no_pending
    have hworks : reading.works (s.doDue supply).state.display := by
      rw [hdisplay]
      exact h.works
    obtain ⟨hshows, hquiet⟩ := round_shows_of_ok hok hlog hworks hpending (by simp)
    exact ⟨hshows.before hdisplay, hquiet⟩
  | false =>
    obtain ⟨hdisplay, hframe, hpending, hlog⟩ := doDue_of_not_draws hdraws
    have hdone : Shows reading s (s.doDue supply).state 0 :=
      h.shows_zero.behind hdisplay hframe hpending
    cases hresult : (s.doDue supply).result with
    | error fault =>
      rw [round_of_error hresult]
      exact ⟨hdone, hlog⟩
    | ok answer =>
      obtain ⟨hshows, hquiet⟩ := round_shows_of_ok hresult hlog hdone.inSync.works
        hdone.inSync.no_pending fun _ => hdone.inSync.shown_eq
      exact ⟨hshows.before hdisplay, hquiet⟩

theorem inSync_act (supply : Supply) (s : RunLoop δ κ) (event : Event) (h : s.InSync reading) :
    (s.act supply event).InSync reading := by
  cases event with
  | offer signal => exact ⟨h.works, h.shown_eq, h.no_pending⟩
  | hangUp => exact ⟨h.works, h.shown_eq, h.no_pending⟩
  | round => exact (round_shows h supply).1.inSync

theorem after_shows (h : s.InSync reading) (supply : Supply) (events : List Event) :
    Shows reading s (s.after supply events) ((s.rounds supply events).countP (draws supply)) := by
  induction events generalizing s with
  | nil => exact h.shows_zero
  | cons event events ih =>
    have hrest := ih (inSync_act supply s event h)
    cases event with
    | offer signal => exact hrest.before rfl
    | hangUp => exact hrest.before rfl
    | round =>
      rw [rounds, List.countP_cons, Nat.add_comm]
      exact (round_shows h supply).1.trans hrest

/-- A run loop that begins with a blank display that works and any program, and to which anything
happens in any order: the display shows the frame, no request is pending, the display has been
flushed once for each clear and each draw that a round carried out and written to 2048 times as
often, and no round has dropped a request. -/
theorem screen_never_stale {δ κ : Type} [Display δ] [Clock κ] (reading : Display.Reading δ)
    (supply : Supply) (program : List UInt8) (display : δ) (inbound : Mailbox Signal) (clock : κ)
    (rates : Rates) (events : List Event) (hworks : reading.works display)
    (hblank : reading.shown display = Frame.blank) :
    let begun := start (Machine.initial.install program).state display inbound clock rates
    let s := begun.after supply events
    let drawn := (begun.rounds supply events).countP (draws supply)
    reading.shown s.display = s.machine.frame ∧ s.machine.pendingRedraws = 0 ∧
      reading.flushes s.display = reading.flushes display + drawn ∧
      reading.writes s.display = reading.writes display + 2048 * drawn ∧
      ∀ r ∈ begun.rounds supply events, .redrawDropped ∉ (r.round supply).log := by
  intro begun s drawn
  have hbegun : begun.InSync reading := by
    obtain ⟨memory, hinstall⟩ := Machine.install_state Machine.initial program
    refine ⟨hworks, ?_, ?_⟩
    · show reading.shown display = (Machine.initial.install program).state.frame
      rw [hinstall, hblank]
      rfl
    · show (Machine.initial.install program).state.pendingRedraws = 0
      rw [hinstall]
      rfl
  obtain ⟨hsync, hflushes, hwrites⟩ := after_shows hbegun supply events
  refine ⟨hsync.shown_eq, hsync.no_pending, hflushes, hwrites, ?_⟩
  intro r hr
  exact (round_shows (rounds_induction (inSync_act supply) begun events hbegun r hr) supply).2

/-- A program that clears the screen once. -/
theorem screen_never_stale_clear :
    let begun : RunLoop Recorder LogicalClock := start (Machine.initial.install [0x00, 0xE0]).state
      Recorder.new (Mailbox.new none false) ⟨0⟩ ⟨1, 1⟩
    let s := begun.after ⟨fun _ => 0, Supply.heldKey⟩ [.round, .round]
    s.display.shown = s.machine.frame ∧ s.display.flushes = 1 ∧ s.display.writes = 2048 := by
  have hdrawn :
      let begun : RunLoop Recorder LogicalClock := start
        (Machine.initial.install [0x00, 0xE0]).state Recorder.new (Mailbox.new none false) ⟨0⟩
        ⟨1, 1⟩
      (begun.rounds ⟨fun _ => 0, Supply.heldKey⟩ [.round, .round]).countP
        (draws ⟨fun _ => 0, Supply.heldKey⟩) = 1 := by
    intro begun
    decide +kernel
  obtain ⟨hshown, -, hflushes, hwrites, -⟩ := screen_never_stale Recorder.reading
    ⟨fun _ => 0, Supply.heldKey⟩ [0x00, 0xE0] Recorder.new (Mailbox.new none false)
    (LogicalClock.mk 0) ⟨1, 1⟩ [.round, .round] ⟨rfl, rfl⟩ rfl
  rw [Recorder.shown_reading] at hshown
  rw [hdrawn, Recorder.flushes_reading, Recorder.flushes_reading] at hflushes
  rw [hdrawn, Recorder.writes_reading, Recorder.writes_reading] at hwrites
  exact ⟨hshown, hflushes, hwrites⟩

end Chip8.RunLoop
