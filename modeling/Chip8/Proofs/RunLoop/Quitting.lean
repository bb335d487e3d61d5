import Chip8.Proofs.RunLoop.Course
import Chip8.Proofs.RunLoop.Progress
import Chip8.Proofs.RunLoop.Runs
import Chip8.Proofs.RunLoop.Typing

/-!
# A signal to quit ends the run at once

On a logical clock the signals that wait are taken without letting time pass. So once the first
round has done what was due, nothing becomes due before the mailbox is empty, and each further round
takes one signal and does nothing else: `AtRest.afterRounds_keys`. A run therefore ends with the
round that takes the first signal to quit, unless its first round fails. What the display shows in
the meantime is not said here.
-/
namespace Chip8.RunLoop

variable {δ : Type} [Display δ] {supply : Supply} {s : RunLoop δ LogicalClock}
  {codes : List UInt8} {rest : List Signal}

/-- Serving the requests one by one leaves none behind, unless a frame cannot be shown. -/
theorem pendingRedraws_showTimes {κ : Type} {count : Nat} {s : RunLoop δ κ}
    (hcount : s.machine.pendingRedraws ≤ count) (hok : (s.showTimes count).result = .ok ()) :
    (s.showTimes count).state.machine.pendingRedraws = 0 := by
  induction count generalizing s with
  | zero => exact Nat.le_zero.mp hcount
  | succ count ih =>
    unfold showTimes Machine.takeRedraw? at hok ⊢
    by_cases hnone : s.machine.pendingRedraws = 0
    · rw [if_pos hnone]
      exact hnone
    · rw [if_neg hnone] at hok ⊢
      dsimp only at hok ⊢
      split at hok
      · exact ih (Nat.sub_le_of_le_add hcount) hok
      · cases hok

/-- What comes before the wait of a round leaves nothing to do, unless it fails. -/
theorem Progresses.atRest_prepare (h : s.Progresses) (hok : (s.prepare supply).result = .ok ()) :
    (s.prepare supply).state.AtRest := by
  obtain ⟨display, hstate⟩ := prepare_state supply s
  constructor
  · cases hdue : (s.doDue supply).result with
    | error fault =>
      rw [prepare, Outcome.andThen_of_error hdue] at hok
      cases hok
    | ok answer =>
      rw [prepare, Outcome.andThen_of_ok hdue] at hok ⊢
      exact pendingRedraws_showTimes (Nat.le_refl _) hok
  · rw [hstate]
    exact Metronome.lt_next_beat h.stepping_pos _
  · rw [hstate]
    exact Metronome.lt_next_beat h.releasing_pos _

/-- A round at rest does nothing but wait. -/
theorem AtRest.round_eq (h : s.AtRest) (supply : Supply) : s.round supply = s.await := by
  rw [round_eq_prepare, h.prepare_eq]
  rfl

/-- Neither a step nor a release of the keys is due at rest. -/
theorem AtRest.not_mem_operations (h : s.AtRest) (supply : Supply) :
    .step ∉ s.operations supply ∧ .releaseKeys ∉ s.operations supply := by
  obtain ⟨hstep, hrelease⟩ := mem_operations_iff supply s
  obtain ⟨hstepping, hreleasing⟩ := h.not_due
  constructor
  · intro hmem
    exact Bool.false_ne_true (hstepping.symm.trans (hstep.mp hmem))
  · intro hmem
    exact Bool.false_ne_true (hreleasing.symm.trans (hrelease.mp hmem))

/-- A round at rest that finds a key presses it, and is at rest again. -/
theorem AtRest.round_of_key (h : s.AtRest) {code : UInt8}
    (hwaiting : s.inbound.waiting = .key code :: rest) (supply : Supply) :
    (s.round supply).result = .ok .proceed ∧
      (s.round supply).state =
        { s with
          machine := s.machine.press code
          inbound := { s.inbound with waiting := rest } } ∧
      (s.round supply).state.AtRest := by
  rw [h.round_eq, await_of_waiting hwaiting]
  exact ⟨rfl, rfl, h.no_pending, h.lt_stepping, h.lt_releasing⟩

theorem AtRest.round_of_quit (h : s.AtRest) (hwaiting : s.inbound.waiting = .quit :: rest)
    (supply : Supply) :
    (s.round supply).result = .ok .shutDown ∧
      (s.round supply).state = { s with inbound := { s.inbound with waiting := rest } } := by
  rw [h.round_eq, await_of_waiting hwaiting]
  exact ⟨rfl, rfl⟩

/-- At rest, the keys at the head of the mailbox are pressed one a round, and each of these rounds
and the one behind them begin at rest. -/
theorem AtRest.afterRounds_keys (h : s.AtRest)
    (hwaiting : s.inbound.waiting = codes.map .key ++ rest) (supply : Supply) :
    (∀ i < codes.length, ((s.afterRounds supply i).round supply).result = .ok .proceed) ∧
      s.afterRounds supply codes.length =
        { s with
          machine := s.machine.run supply (codes.map .press)
          inbound := { s.inbound with waiting := rest } } ∧
      ∀ i ≤ codes.length, (s.afterRounds supply i).AtRest := by
  induction codes generalizing s with
  | nil =>
    refine ⟨fun i hi => absurd hi (Nat.not_lt_zero i), ?_, ?_⟩
    · rw [List.map_nil, List.nil_append] at hwaiting
      rw [← hwaiting]
      rfl
    · intro i hi
      rw [Nat.le_zero.mp hi]
      exact h
  | cons code codes ih =>
    obtain ⟨hresult, hstate, hrest⟩ := h.round_of_key hwaiting supply
    have hwaiting' : (s.round supply).state.inbound.waiting = codes.map .key ++ rest := by
      rw [hstate]
      rfl
    obtain ⟨hproceed, hafter, hatRest⟩ := ih hrest hwaiting'
    refine ⟨?_, ?_, ?_⟩
    · intro i hi
      cases i with
      | zero => exact hresult
      | succ i => exact hproceed i (Nat.lt_of_succ_lt_succ hi)
    · show (s.round supply).state.afterRounds supply codes.length = _
      rw [hafter, hstate]
      rfl
    · intro i hi
      cases i with
      | zero => exact h
      | succ i => exact hatRest i (Nat.le_of_succ_le_succ hi)

/-- A round that comes to its wait is a round at rest, once everything due has been done. -/
theorem Progresses.round_eq_after (h : s.Progresses) (hok : (s.prepare supply).result = .ok ()) :
    s.round supply = ((s.prepare supply).state.round supply).after (s.prepare supply).log := by
  rw [round_of_prepare_ok hok, (h.atRest_prepare hok).round_eq]

/-- The rounds of a run come to the same once everything due in the first of them has been done. -/
theorem Progresses.afterRounds_prepare (h : s.Progresses)
    (hok : (s.prepare supply).result = .ok ()) (i : Nat) :
    ((s.afterRounds supply i).round supply).result =
        (((s.prepare supply).state.afterRounds supply i).round supply).result ∧
      s.afterRounds supply (i + 1) = (s.prepare supply).state.afterRounds supply (i + 1) := by
  have hround := h.round_eq_after hok
  have hstate : (s.round supply).state = ((s.prepare supply).state.round supply).state := by
    rw [hround]
    rfl
  have hafter (j : Nat) :
      s.afterRounds supply (j + 1) = (s.prepare supply).state.afterRounds supply (j + 1) :=
    congrArg (afterRounds supply · j) hstate
  refine ⟨?_, hafter i⟩
  cases i with
  | zero =>
    show (s.round supply).result = _
    rw [hround]
    rfl
  | succ i => rw [hafter i]

/-- How a run ends at the first signal to quit, which waits behind the keys of some codes and before
some other signals. -/
structure QuitsPromptly (supply : Supply) (s : RunLoop δ LogicalClock) (codes : List UInt8)
    (rest : List Signal) : Prop where
  /-- There is one round for each key, and one that takes the signal to quit. -/
  ends : s.EndsAfter supply codes.length
  run_eq : ∀ rounds, s.run supply rounds =
    if codes.length < rounds then
      some ⟨.ok (), s.afterRounds supply (codes.length + 1),
        .running s.stepping.period s.releasing.period :: s.noted supply (codes.length + 1) ++
          [.quitting]⟩
    else none
  presses_eq : s.presses supply (List.replicate (codes.length + 1) .round) = codes
  /-- After what was due in the first round, the machine has seen the presses and nothing else. -/
  machine_eq : (s.afterRounds supply (codes.length + 1)).machine =
    (s.prepare supply).state.machine.run supply (codes.map .press)
  waiting_eq : (s.afterRounds supply (codes.length + 1)).inbound.waiting = rest
  clock_eq : (s.afterRounds supply (codes.length + 1)).clock = s.clock
  first : (s.operations supply).count .step ≤ 1 ∧ (s.operations supply).count .releaseKeys ≤ 1
  later : ∀ i, 0 < i → i ≤ codes.length →
    .step ∉ (s.afterRounds supply i).operations supply ∧
      .releaseKeys ∉ (s.afterRounds supply i).operations supply

theorem accepted_rounds (supply : Supply) (s : RunLoop δ LogicalClock) (count : Nat) :
    s.accepted supply (List.replicate count .round) = [] := by
  induction count generalizing s with
  | zero => rfl
  | succ count ih => exact ih (s.act supply .round)

/-- The keys before the signal to quit are the ones that get pressed. -/
theorem presses_of_waiting {count : Nat}
    (hwaiting : s.inbound.waiting = codes.map .key ++ .quit :: rest)
    (hrest : (s.afterRounds supply count).inbound.waiting = rest) :
    s.presses supply (List.replicate count .round) = codes := by
  have htaken := waiting_append_accepted supply s (List.replicate count .round)
  rw [accepted_rounds, List.append_nil, ← afterRounds, hrest, hwaiting, List.append_cons] at htaken
  rw [presses_eq, ← List.append_cancel_right htaken, List.filterMap_append, List.filterMap_map]
  show codes.filterMap (fun code => some code) ++ [] = codes
  rw [List.filterMap_some, List.append_nil]

theorem Progresses.quitsPromptly (h : s.Progresses) (hok : (s.prepare supply).result = .ok ())
    (hwaiting : s.inbound.waiting = codes.map .key ++ .quit :: rest) :
    s.QuitsPromptly supply codes rest := by
  have hprepared : (s.prepare supply).state.inbound.waiting = codes.map .key ++ .quit :: rest := by
    rw [inbound_prepare, hwaiting]
  obtain ⟨hproceed, hkeys, hatRest⟩ := (h.atRest_prepare hok).afterRounds_keys hprepared supply
  -- once everything due has been done, the run is at rest and comes to the same from there
  have hsame := h.afterRounds_prepare hok
  have hquit : ((s.prepare supply).state.afterRounds supply codes.length).inbound.waiting =
      .quit :: rest := by
    rw [hkeys]
  obtain ⟨hshutDown, hlast⟩ := (hatRest codes.length (Nat.le_refl _)).round_of_quit hquit supply
  have hends : s.EndsAfter supply codes.length := by
    constructor
    · intro i hi
      rw [(hsame i).1]
      exact hproceed i hi
    · rw [(hsame codes.length).1, hshutDown]
      exact fun heq => by cases heq
  have hfinal : s.afterRounds supply (codes.length + 1) =
      { (s.prepare supply).state with
        machine := (s.prepare supply).state.machine.run supply (codes.map .press)
        inbound := { (s.prepare supply).state.inbound with waiting := rest } } := by
    rw [(hsame codes.length).2, afterRounds_succ, hlast, hkeys]
  have hrest : (s.afterRounds supply (codes.length + 1)).inbound.waiting = rest := by
    rw [hfinal]
  constructor
  · exact hends
  · intro rounds
    rw [hends.run_eq, concluded_of_ok ((hsame codes.length).1.trans hshutDown), afterRounds_succ]
  · exact presses_of_waiting hwaiting hrest
  · rw [hfinal]
  · exact hrest
  · rw [hfinal]
    exact clock_prepare supply s
  · exact count_operations_le supply s
  · intro i hpos hi
    cases i with
    | zero => exact absurd hpos (Nat.lt_irrefl 0)
    | succ i =>
      rw [(hsame i).2]
      exact (hatRest (i + 1) hi).not_mem_operations supply

/-- A run loop started on a logical clock with any rates that leave a nanosecond to each beat, to
which anything happened in any order; keys wait in its mailbox, and behind them a signal to quit. If
its next round does not fail, a run from there ends well after one round for each key and one more,
and no time passes. The keys are pressed in order, what waits behind the signal to quit stays
there, and the machine steps at most once and has its keys released at most once, both in the first
round. -/
theorem quit_ends_run_promptly {δ : Type} [Display δ] (supply : Supply) (machine : Machine)
    (display : δ) (inbound : Mailbox Signal) (time : Nat) (rates : Rates) (events : List Event)
    (hstepping : rates.stepHz ≤ 1000000000) (hreleasing : rates.resetHz ≤ 1000000000) :
    let s := (start machine display inbound (LogicalClock.mk time) rates).after supply events
    ∀ codes rest, s.inbound.waiting = codes.map .key ++ .quit :: rest →
      (∀ fault, (s.round supply).result ≠ .error fault) → s.QuitsPromptly supply codes rest := by
  intro s codes rest hwaiting hfault
  have hprogresses : s.Progresses :=
    ⟨stepping_pos_after machine display inbound time supply events hstepping,
      releasing_pos_after machine display inbound time supply events hreleasing⟩
  cases hprepare : (s.prepare supply).result with
  | ok answer => exact hprogresses.quitsPromptly hprepare hwaiting
  | error fault =>
    rw [round_of_prepare_error hprepare] at hfault
    exact absurd rfl (hfault fault)

/-- Both metronomes are due when the run begins; two keys wait before the signal to quit, and one
behind it. -/
theorem quit_ends_run_promptly_two_keys :
    let supply : Supply := ⟨fun _ => 0, Supply.heldKey⟩
    let begun : RunLoop Recorder LogicalClock :=
      start (Machine.initial.install [0x12, 0x00]).state Recorder.new
        (Mailbox.new (some inputCapacity) false) ⟨0⟩ ⟨100, 50⟩
    let s := begun.after supply [.round, .round, .offer (.key 1), .offer (.key 2), .offer .quit,
      .offer (.key 3)]
    s.duties s.clock.now = [.releaseKeys, .step] ∧
      s.inbound.waiting = [1, 2].map .key ++ .quit :: [.key 3] ∧
      s.QuitsPromptly supply [1, 2] [.key 3] := by
  intro supply begun s
  have hduties : s.duties s.clock.now = [.releaseKeys, .step] := by decide +kernel
  have hwaiting : s.inbound.waiting = [1, 2].map .key ++ .quit :: [.key 3] := by decide +kernel
  have hfault : (s.round supply).fault? = none := by decide +kernel
  refine ⟨hduties, hwaiting, ?_⟩
  refine quit_ends_run_promptly supply _ _ _ 0 ⟨100, 50⟩ _ (by decide) (by decide) _ _ hwaiting ?_
  intro fault hresult
  rw [Outcome.fault?_eq_some_iff.mpr hresult] at hfault
  cases hfault

end Chip8.RunLoop
