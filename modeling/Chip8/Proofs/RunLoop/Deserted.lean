import Chip8.Proofs.RunLoop.Delivery
import Chip8.Proofs.RunLoop.Progress
import Chip8.Proofs.RunLoop.Runs

/-!
# Run loops that nobody sends to any more

A run loop on a logical clock goes on when its producer has hung up: it takes the signals that wait
and then keeps to its beats. `round_deserted` compares one round with the round of the same run loop
whose producer is still there and silent. The two differ in one notice, which the first round that
finds no signal gives. Mailboxes to which somebody else can send are not covered: they are never
deserted.
-/
namespace Chip8.RunLoop

variable {δ : Type} {s : RunLoop δ LogicalClock}

/-- The same run loop with its producer gone, which has been noted or not. -/
def deserted {κ : Type} (s : RunLoop δ κ) (noted : Bool) : RunLoop δ κ :=
  { s with inbound := s.inbound.hangUp, inputGone := noted }

/-- The producer is there, and nobody else can send. -/
structure Attended (s : RunLoop δ LogicalClock) : Prop where
  connected : s.inbound.connected = true
  not_shared : s.inbound.shared = false
  not_noted : s.inputGone = false

/-- A wait that the producer's loss can be told from has found no signal, and is the first one. -/
theorem await_deserted (h : s.Attended) (noted : Bool) :
    (s.deserted noted).await =
      ⟨s.await.result, s.await.state.deserted (noted || s.inbound.waiting.isEmpty),
        s.await.log ++ if !noted && s.inbound.waiting.isEmpty then [.inputGone] else []⟩ := by
  cases hwaiting : s.inbound.waiting with
  | nil =>
    have hgone : (s.deserted noted).inbound.waiting = [] := hwaiting
    have hclosed : ((s.deserted noted).inbound.connected || (s.deserted noted).inbound.shared) =
        false := h.not_shared
    rw [await_of_empty hgone, await_of_empty hwaiting, hclosed, h.connected]
    cases noted <;> rfl
  | cons signal rest =>
    have hgone : (s.deserted noted).inbound.waiting = signal :: rest := hwaiting
    rw [await_of_waiting hgone, await_of_waiting hwaiting]
    cases signal <;> cases noted <;> simp [wakeUp, deserted, Outcome.done, Mailbox.hangUp]

theorem attended_await (h : s.Attended) :
    s.await.state.Attended ∧ .inputGone ∉ s.await.log := by
  cases hwaiting : s.inbound.waiting with
  | nil =>
    rw [await_of_empty hwaiting, h.connected]
    exact ⟨⟨h.connected, h.not_shared, h.not_noted⟩, List.not_mem_nil⟩
  | cons signal rest =>
    rw [await_of_waiting hwaiting]
    cases signal with
    | key code =>
      refine ⟨⟨h.connected, h.not_shared, h.not_noted⟩, ?_⟩
      show .inputGone ∉ Keypad.pressNotices code
      unfold Keypad.pressNotices
      split <;> simp
    | quit => exact ⟨⟨h.connected, h.not_shared, h.not_noted⟩, List.not_mem_nil⟩

theorem doDue_deserted (supply : Supply) (noted : Bool) (s : RunLoop δ LogicalClock) :
    (s.deserted noted).doDue supply = (s.doDue supply).within (deserted · noted) := by
  have hreleased : (s.deserted noted).releaseIfDue s.clock.now =
      (s.releaseIfDue s.clock.now).deserted noted := by
    rw [releaseIfDue_eq, releaseIfDue_eq]
    rfl
  show ((s.deserted noted).releaseIfDue s.clock.now).stepIfDue supply s.clock.now =
    ((s.releaseIfDue s.clock.now).stepIfDue supply s.clock.now).within (deserted · noted)
  rw [hreleased, stepIfDue, stepIfDue]
  show (if (s.releaseIfDue s.clock.now).stepping.isDue s.clock.now then _ else _) = _
  split <;> rfl

theorem showTimes_deserted [Display δ] {κ : Type} (noted : Bool) (count : Nat) (s : RunLoop δ κ) :
    (s.deserted noted).showTimes count = (s.showTimes count).within (deserted · noted) := by
  induction count generalizing s with
  | zero => rfl
  | succ count ih =>
    have hmachine : (s.deserted noted).machine = s.machine := rfl
    have hdisplay : (s.deserted noted).display = s.display := rfl
    rw [showTimes, showTimes, hmachine, hdisplay]
    cases s.machine.takeRedraw? with
    | none => rfl
    | some machine =>
      dsimp only
      rcases machine.frame.render s.display with ⟨_ | _, display⟩
      · rfl
      · exact ih { s with machine := machine, display := display }

variable [Display δ] {supply : Supply}

/-- Until its wait a round does not look at the mailbox. -/
theorem prepare_deserted (supply : Supply) (noted : Bool) (s : RunLoop δ LogicalClock) :
    (s.deserted noted).prepare supply = (s.prepare supply).within (deserted · noted) := by
  rw [prepare, doDue_deserted]
  exact Outcome.andThen_within _ _ fun _ t => showTimes_deserted noted t.machine.pendingRedraws t

theorem attended_prepare (h : s.Attended) (supply : Supply) :
    (s.prepare supply).state.Attended := by
  obtain ⟨display, hstate⟩ := prepare_state supply s
  rw [hstate]
  exact ⟨h.connected, h.not_shared, h.not_noted⟩

/-- A round finds no signal if nothing waits when it comes to its wait. -/
theorem idles_of_prepare_ok (h : (s.prepare supply).result = .ok ()) :
    s.idles supply = s.inbound.waiting.isEmpty := by
  have hresult := round_result_of_prepare_ok h
  rw [taken?_of_wait h] at hresult
  cases hwaiting : s.inbound.waiting with
  | nil =>
    rw [hwaiting] at hresult
    exact idles_iff.mpr ⟨hwaiting, hresult⟩
  | cons signal rest =>
    show s.idles supply = false
    rw [← Bool.not_eq_true, idles_iff, hwaiting]
    simp

/-- A round of a deserted run loop does what it would do if the producer were silent, and notes the
loss if it is the first that finds no signal. -/
theorem round_deserted (h : s.Attended) (supply : Supply) (noted : Bool) :
    (s.deserted noted).round supply =
      ⟨(s.round supply).result, (s.round supply).state.deserted (noted || s.idles supply),
        (s.round supply).log ++ if !noted && s.idles supply then [.inputGone] else []⟩ := by
  have hprepare := prepare_deserted supply noted s
  cases hresult : (s.prepare supply).result with
  | error fault =>
    have hgone : ((s.deserted noted).prepare supply).result = .error fault := by
      rw [hprepare]
      exact hresult
    have hidles : s.idles supply = false := by
      rw [← Bool.not_eq_true, idles_iff, round_of_prepare_error hresult]
      simp
    rw [round_of_prepare_error hgone, round_of_prepare_error hresult, hprepare, hidles,
      Bool.or_false, Bool.and_false, if_neg Bool.false_ne_true, List.append_nil]
    rfl
  | ok answer =>
    have hgone : ((s.deserted noted).prepare supply).result = .ok () := by
      rw [hprepare]
      exact hresult
    rw [round_of_prepare_ok hgone, round_of_prepare_ok hresult, hprepare,
      idles_of_prepare_ok hresult, ← inbound_prepare supply s]
    show ((s.prepare supply).state.deserted noted).await.after _ = _
    rw [await_deserted (attended_prepare h supply)]
    show (⟨_, _, _ ++ (_ ++ _)⟩ : Outcome _ _) = ⟨_, _, _ ++ _ ++ _⟩
    rw [List.append_assoc]
    rfl

theorem attended_round (h : s.Attended) (supply : Supply) :
    (s.round supply).state.Attended ∧ .inputGone ∉ (s.round supply).log := by
  have hbefore := attended_prepare h supply
  have hquiet : .inputGone ∉ (s.prepare supply).log := by
    rw [log_prepare]
    intro hin
    cases level_of_mem_log_doDue hin
  cases hresult : (s.prepare supply).result with
  | error fault =>
    rw [round_of_prepare_error hresult]
    exact ⟨hbefore, hquiet⟩
  | ok answer =>
    obtain ⟨hattended, hlog⟩ := attended_await hbefore
    rw [round_of_prepare_ok hresult]
    refine ⟨hattended, fun hin => ?_⟩
    rcases List.mem_append.mp hin with hin | hin
    · exact hquiet hin
    · exact hlog hin

/-- What so many rounds come to. -/
def results {κ : Type} [Clock κ] (supply : Supply) (s : RunLoop δ κ) (count : Nat) :
    List (Except Fault Verdict) :=
  (s.rounds supply (List.replicate count .round)).map fun r => (r.round supply).result

/-- Whether one of so many rounds finds no signal when it comes to its wait. -/
def idled (supply : Supply) (s : RunLoop δ LogicalClock) (count : Nat) : Bool :=
  (s.rounds supply (List.replicate count .round)).any (idles supply)

theorem results_succ {κ : Type} [Clock κ] (supply : Supply) (s : RunLoop δ κ) (count : Nat) :
    s.results supply (count + 1) =
      (s.round supply).result :: (s.round supply).state.results supply count := rfl

theorem idled_succ (supply : Supply) (s : RunLoop δ LogicalClock) (count : Nat) :
    s.idled supply (count + 1) =
      (s.idles supply || (s.round supply).state.idled supply count) := rfl

/-- Rounds of a deserted run loop end as they would with a silent producer, and leave the same
behind. -/
theorem afterRounds_deserted (h : s.Attended) (supply : Supply) (told : Bool) (count : Nat) :
    (s.deserted told).results supply count = s.results supply count ∧
      (s.deserted told).afterRounds supply count =
        (s.afterRounds supply count).deserted (told || s.idled supply count) := by
  induction count generalizing s told with
  | zero =>
    refine ⟨rfl, ?_⟩
    show s.deserted told = s.deserted (told || false)
    rw [Bool.or_false]
  | succ count ih =>
    have hround := round_deserted h supply told
    obtain ⟨hresults, hafter⟩ := ih (attended_round h supply).1 (told || s.idles supply)
    constructor
    · rw [results_succ, results_succ, hround]
      exact congrArg _ hresults
    · rw [idled_succ, ← Bool.or_assoc]
      show ((s.deserted told).round supply).state.afterRounds supply count = _
      rw [hround]
      exact hafter

/-- Their logs differ in the notice of the loss, which is given once. -/
theorem noted_deserted (h : s.Attended) (supply : Supply) (told : Bool) (count : Nat) :
    ((s.deserted told).noted supply count).filter (· ≠ .inputGone) = s.noted supply count ∧
      ((s.deserted told).noted supply count).count .inputGone =
        if !told && s.idled supply count then 1 else 0 := by
  induction count generalizing s told with
  | zero =>
    refine ⟨rfl, ?_⟩
    show 0 = if !told && false then 1 else 0
    rw [Bool.and_false, if_neg Bool.false_ne_true]
  | succ count ih =>
    obtain ⟨hattended, hquiet⟩ := attended_round h supply
    obtain ⟨hfilter, hcount⟩ := ih hattended (told || s.idles supply)
    have hkeeps : ((s.round supply).log).filter (· ≠ .inputGone) = (s.round supply).log :=
      List.filter_eq_self.mpr fun notice hin => decide_eq_true fun heq => hquiet (heq ▸ hin)
    have hnone : ((s.round supply).log).count .inputGone = 0 := List.count_eq_zero.mpr hquiet
    rw [noted_succ, noted_succ, idled_succ, round_deserted h supply told]
    dsimp only
    constructor
    · rw [List.filter_append, List.filter_append, hkeeps, hfilter]
      split <;> simp
    · rw [List.count_append, List.count_append, hnone, hcount]
      cases told <;> cases s.idles supply <;> simp

/-- Nobody but the producer can send, and while it is there its loss has not been noted. -/
def NotesLossOnly (s : RunLoop δ LogicalClock) : Prop :=
  s.inbound.shared = false ∧ (s.inbound.connected = true → s.inputGone = false)

theorem notesLossOnly_act (supply : Supply) (s : RunLoop δ LogicalClock) (event : Event)
    (h : s.NotesLossOnly) : (s.act supply event).NotesLossOnly := by
  obtain ⟨hshared, hnoted⟩ := h
  cases event with
  | offer signal =>
    show (s.inbound.offer signal).shared = false ∧
      ((s.inbound.offer signal).connected = true → s.inputGone = false)
    rw [Mailbox.offer_eq]
    exact ⟨hshared, hnoted⟩
  | hangUp => exact ⟨hshared, fun hconnected => nomatch hconnected⟩
  | round =>
    rw [act, NotesLossOnly, inbound_round]
    refine ⟨hshared, fun hconnected => ?_⟩
    exact (attended_round ⟨hconnected, hshared, hnoted hconnected⟩ supply).1.not_noted

/-- After so many rounds a run loop that has lost its producer is where it would be if the producer
were silent. The logs differ in the notice of the loss, which is given once if a round has come to
its wait with nothing in the mailbox, and otherwise not at all. -/
structure Unharmed (supply : Supply) (kept lost : RunLoop δ LogicalClock) (count : Nat) :
    Prop where
  results_eq : lost.results supply count = kept.results supply count
  machine_eq : (lost.afterRounds supply count).machine = (kept.afterRounds supply count).machine
  display_eq : (lost.afterRounds supply count).display = (kept.afterRounds supply count).display
  clock_eq : (lost.afterRounds supply count).clock = (kept.afterRounds supply count).clock
  waiting_eq : (lost.afterRounds supply count).inbound.waiting =
    (kept.afterRounds supply count).inbound.waiting
  log_eq : (lost.noted supply count).filter (· ≠ .inputGone) = kept.noted supply count
  notices_eq : (lost.noted supply count).count .inputGone =
    if kept.idled supply count then 1 else 0

/-- A run loop on a logical clock with a producer that alone can send, and that is there whatever has
happened so far. From then on nothing is sent: any number of rounds comes to the same if the
producer hangs up, but for one notice. -/
theorem loss_of_producer_harmless {δ : Type} [Display δ] (supply : Supply) (machine : Machine)
    (display : δ) (inbound : Mailbox Signal) (time : Nat) (rates : Rates) (events : List Event)
    (count : Nat) (hshared : inbound.shared = false) :
    let kept := (start machine display inbound (LogicalClock.mk time) rates).after supply events
    kept.inbound.connected = true →
      kept.Unharmed supply (kept.act supply .hangUp) count := by
  intro kept hconnected
  have hkept : kept.NotesLossOnly :=
    after_induction (notesLossOnly_act supply) _ events ⟨hshared, fun _ => rfl⟩
  have hattended : kept.Attended := ⟨hconnected, hkept.1, hkept.2 hconnected⟩
  have hlost : kept.act supply .hangUp = kept.deserted false := by
    rw [deserted, ← hattended.not_noted]
    rfl
  obtain ⟨hresults, hafter⟩ := afterRounds_deserted hattended supply false count
  obtain ⟨hfilter, hcount⟩ := noted_deserted hattended supply false count
  rw [hlost]
  constructor
  · exact hresults
  · rw [hafter]
    rfl
  · rw [hafter]
    rfl
  · rw [hafter]
    rfl
  · rw [hafter]
    rfl
  · exact hfilter
  · exact hcount

/-- A key waits when the producer is lost, and the display fails at the frame that is shown later. -/
theorem loss_of_producer_harmless_failing_display :
    let supply : Supply := ⟨fun _ => 0, Supply.heldKey⟩
    let kept : RunLoop Recorder LogicalClock :=
      (start (Machine.initial.install [0x00, 0xE0]).state (Recorder.failingAt 3 0)
        (Mailbox.new (some inputCapacity) false) ⟨0⟩ ⟨100, 50⟩).after supply [.offer (.key 5)]
    let lost := kept.act supply .hangUp
    kept.inbound.connected = true ∧ kept.Unharmed supply lost 4 ∧
      (lost.noted supply 4).count .inputGone = 1 ∧
      ((lost.afterRounds supply 2).round supply).fault? = some (.device "display write failed") := by
  intro supply kept lost
  have hconnected : kept.inbound.connected = true := by decide +kernel
  have hidled : kept.idled supply 4 = true := by decide +kernel
  have hfails : ((lost.afterRounds supply 2).round supply).fault? =
      some (.device "display write failed") := by decide +kernel
  have hunharmed : kept.Unharmed supply lost 4 := loss_of_producer_harmless supply
    (Machine.initial.install [0x00, 0xE0]).state (Recorder.failingAt 3 0)
    (Mailbox.new (some inputCapacity) false) 0 ⟨100, 50⟩ [.offer (.key 5)] 4 rfl hconnected
  refine ⟨hconnected, hunharmed, ?_, hfails⟩
  rw [hunharmed.notices_eq, if_pos hidled]

end Chip8.RunLoop
