import Chip8.Proofs.RunLoop.Failures
import Chip8.Proofs.RunLoop.Notices
import Chip8.RunLoop.Run

/-!
# Whole runs

A run does rounds until one does not go on: `EndsAfter` says after how many. A run that is given
more rounds than that has an answer, and no other has: `run_eq_some_iff`. The answer is that of the
last round, with the notices of all rounds between one of the begin and one of the end. That a run
ends at all is not said here.
-/
namespace Chip8

/-- Whether the notice is of the begin or of the end of a whole run. -/
def Notice.framesRun : Notice → Bool
  | running .. | quitting | halted .. => true
  | _ => false

namespace RunLoop

variable {δ κ : Type}

/-- The notice of the end of a run, by its last round. -/
def closing (turn : Outcome (RunLoop δ κ) Verdict) : Notice :=
  match turn.result with
  | .ok _ => .quitting
  | .error fault => .halted turn.state.machine.pc fault

/-- What a run comes to whose last round this is, with all that was noted by then. -/
def concluded (turn : Outcome (RunLoop δ κ) Verdict) (told : List Notice) :
    Outcome (RunLoop δ κ) Unit :=
  ⟨turn.result.map fun _ => (), turn.state, told ++ [closing turn]⟩

theorem concluded_of_ok {turn : Outcome (RunLoop δ κ) Verdict} {verdict : Verdict}
    (h : turn.result = .ok verdict) (told : List Notice) :
    concluded turn told = ⟨.ok (), turn.state, told ++ [.quitting]⟩ := by
  simp only [concluded, closing, h, Except.map]

theorem concluded_of_error {turn : Outcome (RunLoop δ κ) Verdict} {fault : Fault}
    (h : turn.result = .error fault) (told : List Notice) :
    concluded turn told =
      ⟨.error fault, turn.state, told ++ [.halted turn.state.machine.pc fault]⟩ := by
  simp only [concluded, closing, h, Except.map]

variable [Display δ] [Clock κ] {supply : Supply} {s : RunLoop δ κ} {rounds count : Nat}

/-- The run loop after so many rounds. -/
def afterRounds (supply : Supply) (s : RunLoop δ κ) (count : Nat) : RunLoop δ κ :=
  s.after supply (List.replicate count .round)

/-- Everything that so many rounds note. -/
def noted (supply : Supply) (s : RunLoop δ κ) (count : Nat) : List Notice :=
  (s.rounds supply (List.replicate count .round)).flatMap fun r => (r.round supply).log

/-- So many rounds go on, and the one behind them does not. -/
def EndsAfter (supply : Supply) (s : RunLoop δ κ) (count : Nat) : Prop :=
  (∀ i < count, ((s.afterRounds supply i).round supply).result = .ok .proceed) ∧
    ((s.afterRounds supply count).round supply).result ≠ .ok .proceed

theorem noted_zero (supply : Supply) (s : RunLoop δ κ) : s.noted supply 0 = [] := rfl

theorem noted_succ (supply : Supply) (s : RunLoop δ κ) (count : Nat) :
    s.noted supply (count + 1) =
      (s.round supply).log ++ (s.round supply).state.noted supply count := rfl

theorem endsAfter_zero : s.EndsAfter supply 0 ↔ (s.round supply).result ≠ .ok .proceed :=
  and_iff_right fun _ hi => absurd hi (Nat.not_lt_zero _)

theorem endsAfter_succ : s.EndsAfter supply (count + 1) ↔
    (s.round supply).result = .ok .proceed ∧ (s.round supply).state.EndsAfter supply count := by
  constructor
  · rintro ⟨hgoes, hends⟩
    exact ⟨hgoes 0 (Nat.succ_pos _), fun i hi => hgoes (i + 1) (Nat.succ_lt_succ hi), hends⟩
  · rintro ⟨hfirst, hgoes, hends⟩
    refine ⟨fun i hi => ?_, hends⟩
    cases i with
    | zero => exact hfirst
    | succ i => exact hgoes i (Nat.lt_of_succ_lt_succ hi)

theorem runAfter_of_proceed {told : List Notice} (h : (s.round supply).result = .ok .proceed) :
    s.runAfter supply (rounds + 1) told =
      (s.round supply).state.runAfter supply rounds ((s.round supply).log.reverse ++ told) := by
  rw [runAfter]
  simp only [h]

theorem runAfter_of_not_proceed {told : List Notice}
    (h : (s.round supply).result ≠ .ok .proceed) :
    s.runAfter supply (rounds + 1) told =
      some (concluded (s.round supply) (told.reverse ++ (s.round supply).log)) := by
  rw [runAfter]
  cases hresult : (s.round supply).result with
  | error fault => simp [concluded_of_error hresult]
  | ok verdict =>
    cases verdict with
    | proceed => exact absurd hresult h
    | shutDown => simp [concluded_of_ok hresult]

/-- A run that is given a number of rounds has an answer if it ends within them. -/
theorem runAfter_eq_some_iff {told : List Notice} {o : Outcome (RunLoop δ κ) Unit} :
    s.runAfter supply rounds told = some o ↔ ∃ count < rounds, s.EndsAfter supply count ∧
      o = concluded ((s.afterRounds supply count).round supply)
        (told.reverse ++ s.noted supply (count + 1)) := by
  induction rounds generalizing s told with
  | zero =>
    constructor
    · intro h
      cases h
    · rintro ⟨count, hcount, -, -⟩
      exact absurd hcount (Nat.not_lt_zero _)
  | succ rounds ih =>
    by_cases hproceed : (s.round supply).result = .ok .proceed
    · rw [runAfter_of_proceed hproceed, ih]
      constructor
      · rintro ⟨count, hcount, hends, rfl⟩
        refine ⟨count + 1, Nat.succ_lt_succ hcount, endsAfter_succ.mpr ⟨hproceed, hends⟩, ?_⟩
        rw [noted_succ supply s, List.reverse_append, List.reverse_reverse, List.append_assoc]
        rfl
      · rintro ⟨count, hcount, hends, rfl⟩
        cases count with
        | zero => exact absurd hproceed (endsAfter_zero.mp hends)
        | succ count =>
          refine ⟨count, Nat.lt_of_succ_lt_succ hcount, (endsAfter_succ.mp hends).2, ?_⟩
          rw [noted_succ supply s, List.reverse_append, List.reverse_reverse, List.append_assoc]
          rfl
    · rw [runAfter_of_not_proceed hproceed]
      constructor
      · intro h
        refine ⟨0, Nat.succ_pos _, endsAfter_zero.mpr hproceed, (Option.some.inj h).symm.trans ?_⟩
        rw [noted_succ supply s, noted_zero, List.append_nil]
        rfl
      · rintro ⟨count, hcount, hends, rfl⟩
        cases count with
        | zero =>
          rw [noted_succ supply s, noted_zero, List.append_nil]
          rfl
        | succ count => exact absurd (endsAfter_succ.mp hends).1 hproceed

theorem run_eq_some_iff {o : Outcome (RunLoop δ κ) Unit} :
    s.run supply rounds = some o ↔ ∃ count < rounds, s.EndsAfter supply count ∧
      o = concluded ((s.afterRounds supply count).round supply)
        (.running s.stepping.period s.releasing.period :: s.noted supply (count + 1)) :=
  runAfter_eq_some_iff

theorem EndsAfter.unique (h : s.EndsAfter supply count) {other : Nat}
    (hother : s.EndsAfter supply other) : count = other := by
  rcases Nat.lt_trichotomy count other with hlt | heq | hlt
  · exact absurd (hother.1 count hlt) h.2
  · exact heq
  · exact absurd (h.1 other hlt) hother.2

/-- A run has its answer as soon as it is given one round more than go on. -/
theorem EndsAfter.run_eq (h : s.EndsAfter supply count) (rounds : Nat) :
    s.run supply rounds =
      if count < rounds then
        some (concluded ((s.afterRounds supply count).round supply)
          (.running s.stepping.period s.releasing.period :: s.noted supply (count + 1)))
      else none := by
  split
  · next hlt => exact run_eq_some_iff.mpr ⟨count, hlt, h, rfl⟩
  · next hnot =>
    refine Option.eq_none_iff_forall_ne_some.mpr fun o ho => ?_
    obtain ⟨other, hlt, hother, -⟩ := run_eq_some_iff.mp ho
    exact hnot (h.unique hother ▸ hlt)

theorem afterRounds_succ (supply : Supply) (s : RunLoop δ κ) (count : Nat) :
    s.afterRounds supply (count + 1) = ((s.afterRounds supply count).round supply).state := by
  induction count generalizing s with
  | zero => rfl
  | succ count ih => exact ih (s.round supply).state

theorem framesRun_of_mem_noted {notice : Notice} (h : notice ∈ s.noted supply count) :
    notice.framesRun = false := by
  obtain ⟨r, -, hnotice⟩ := List.mem_flatMap.mp h
  rcases mem_log_round hnotice with htrace | ⟨code, rfl, -⟩ | rfl
  · cases notice <;> first | rfl | contradiction
  · rfl
  · rfl

/-- A step that fails leaves the program counter at its instruction. -/
theorem pc_round_of_step_fault {fault : Fault} (h : (s.round supply).result = .error fault)
    (hstep : ∀ message, fault ≠ .device message) :
    (s.round supply).state.machine.pc = s.machine.pc := by
  rw [((failing_round_stops supply s fault h).1 hstep).state_eq]
  dsimp only
  split <;> rfl

/-- What a run comes to whose last round has `count` others before it. -/
structure RunsTo (supply : Supply) (s : RunLoop δ κ) (count : Nat)
    (o : Outcome (RunLoop δ κ) Unit) : Prop where
  ends : s.EndsAfter supply count
  ok_iff : o.result = .ok () ↔ ((s.afterRounds supply count).round supply).result = .ok .shutDown
  quit_iff : o.result = .ok () ↔ (s.afterRounds supply count).taken? supply = some .quit
  error_iff : ∀ fault, o.result = .error fault ↔
    ((s.afterRounds supply count).round supply).result = .error fault
  state_eq : o.state = s.afterRounds supply (count + 1)
  log_of_ok : o.result = .ok () → o.log =
    .running s.stepping.period s.releasing.period :: s.noted supply (count + 1) ++ [.quitting]
  log_of_error : ∀ fault, o.result = .error fault → o.log =
    .running s.stepping.period s.releasing.period :: s.noted supply (count + 1) ++
      [.halted o.state.machine.pc fault]
  /-- The rounds themselves note neither a begin nor an end. -/
  framed : ∀ notice ∈ s.noted supply (count + 1), notice.framesRun = false
  /-- A run that a step has ended shows the address of the instruction that failed. -/
  pc_eq : ∀ fault, o.result = .error fault → (∀ message, fault ≠ .device message) →
    o.state.machine.pc = (s.afterRounds supply count).machine.pc

theorem runsTo_concluded (hends : s.EndsAfter supply count) :
    s.RunsTo supply count (concluded ((s.afterRounds supply count).round supply)
      (.running s.stepping.period s.releasing.period :: s.noted supply (count + 1))) := by
  have hquit := shutDown_iff_taken supply (s.afterRounds supply count)
  have hstate := (afterRounds_succ supply s count).symm
  cases hresult : ((s.afterRounds supply count).round supply).result with
  | ok verdict =>
    cases verdict with
    | proceed => exact absurd hresult hends.2
    | shutDown =>
      rw [concluded_of_ok hresult]
      exact {
        ends := hends
        ok_iff := iff_of_true rfl hresult
        quit_iff := iff_of_true rfl (hquit.mp hresult)
        error_iff := fun fault => by simp [hresult]
        state_eq := hstate
        log_of_ok := fun _ => rfl
        log_of_error := fun _ h => by cases h
        framed := fun _ => framesRun_of_mem_noted
        pc_eq := fun _ h => by cases h }
  | error cause =>
    rw [concluded_of_error hresult]
    exact {
      ends := hends
      ok_iff := by simp [hresult]
      quit_iff := by
        rw [← hquit, hresult]
        simp
      error_iff := fun fault => by simp [hresult]
      state_eq := hstate
      log_of_ok := fun h => by cases h
      log_of_error := fun fault h => by
        cases h
        rfl
      framed := fun _ => framesRun_of_mem_noted
      pc_eq := fun fault h hstep => by
        cases h
        exact pc_round_of_step_fault hresult hstep }

/-- A run has an answer just when some round does not go on, however many rounds it is given beyond
that one, and the answer is what the rounds up to that one come to. -/
theorem run_repeats_rounds {δ κ : Type} [Display δ] [Clock κ] (supply : Supply) (s : RunLoop δ κ) :
    ((∃ rounds o, s.run supply rounds = some o) ↔ ∃ count, s.EndsAfter supply count) ∧
      ∀ rounds o, s.run supply rounds = some o →
        (∀ more, rounds ≤ more → s.run supply more = some o) ∧
          ∃ count, s.RunsTo supply count o := by
  refine ⟨⟨?_, ?_⟩, fun rounds o h => ⟨fun more hmore => runAfter_mono hmore h, ?_⟩⟩
  · rintro ⟨rounds, o, h⟩
    obtain ⟨count, -, hends, -⟩ := run_eq_some_iff.mp h
    exact ⟨count, hends⟩
  · rintro ⟨count, hends⟩
    exact ⟨count + 1, _, run_eq_some_iff.mpr ⟨count, Nat.lt_succ_self count, hends, rfl⟩⟩
  · obtain ⟨count, -, hends, rfl⟩ := run_eq_some_iff.mp h
    exact ⟨count, runsTo_concluded hends⟩

/-- A run that halts at its second instruction, which is none, with a key taken on the way. -/
theorem run_repeats_rounds_halted :
    let supply : Supply := ⟨fun _ => 0, Supply.heldKey⟩
    let s : RunLoop Recorder LogicalClock :=
      (start (Machine.initial.install [0x60, 0x01, 0x00, 0x00]).state Recorder.new
        (Mailbox.new (some inputCapacity) false) ⟨0⟩ ⟨100, 10⟩).after supply [.offer (.key 0xB)]
    ∃ count o, s.run supply 9 = some o ∧ s.RunsTo supply count o ∧
      o.result = .error (.unknownWord 0) ∧ o.state.machine.pc = 0x202 ∧
      o.log.getLast? = some (.halted 0x202 (.unknownWord 0)) := by
  intro supply s
  have hrun : (s.run supply 9).bind Outcome.fault? = some (.unknownWord 0) ∧
      (s.run supply 9).map (·.state.machine.pc) = some 0x202 := by decide +kernel
  obtain ⟨hfault, hpc⟩ := hrun
  obtain ⟨o, ho, hfault⟩ := Option.bind_eq_some_iff.mp hfault
  rw [ho] at hpc
  have hresult := Outcome.fault?_eq_some_iff.mp hfault
  have hpc : o.state.machine.pc = 0x202 := Option.some.inj hpc
  obtain ⟨-, count, hto⟩ := (run_repeats_rounds supply s).2 9 o ho
  refine ⟨count, o, ho, hto, hresult, hpc, ?_⟩
  rw [hto.log_of_error _ hresult, hpc]
  exact List.getLast?_concat

end RunLoop
end Chip8
