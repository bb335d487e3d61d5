import Chip8.Proofs.Machine.Log

/-!
# Requests to show the frame

A machine asks for its frame to be shown whenever an instruction draws, but it keeps no more than
five requests; the others it drops and notes. Somebody who copies the frame each time there is a
request to take still never misses what was drawn last: while a copy is out of date, a request is
pending. `Watched` is such an onlooker, and `UpToDate` what every action keeps. A run loop's
display is a case of its own and not covered.
-/
namespace Chip8

/-- Something done to a machine: an operation, or a word carried out that is not read from its
memory. -/
inductive Action where
  | operate (op : Operation)
  | perform (word : Word)
  deriving DecidableEq, Repr

namespace Machine

def carryOut (supply : Supply) (m : Machine) : Action → Outcome Machine Unit
  | .operate .step => m.step supply
  | .operate (.press code) => ⟨.ok (), m.press code, Keypad.pressNotices code⟩
  | .operate .releaseKeys => .done () m.releaseKeys
  | .operate .takeRedraw => .done () (m.takeRedraw?.getD m)
  | .operate (.install program) => m.install program
  | .perform word => m.perform supply word

/-- The instruction that an action is about, if there is one. -/
def instruction? (m : Machine) : Action → Option Instruction
  | .operate .step => m.current?
  | .perform word => (Instruction.decode word).toOption
  | _ => none

/-- Whether the action carries out an instruction that draws. -/
def actionDraws (supply : Supply) (m : Machine) (action : Action) : Bool :=
  (m.carryOut supply action).result.isOk && (m.instruction? action).any Instruction.draws

/-- Whether the action takes a request to show the frame. -/
def actionTakes (m : Machine) : Action → Bool
  | .operate .takeRedraw => m.takeRedraw?.isSome
  | _ => false

/-- What is left of something that drew or did not: without drawing the frame and the requests are
as before, and drawing asks once, or drops a request and notes it. -/
structure Pictures (m : Machine) (drew : Bool) (o : Outcome Machine Unit) : Prop where
  of_quiet : drew = false → o.state.frame = m.frame ∧
    o.state.pendingRedraws = m.pendingRedraws ∧ o.log.count .redrawDropped = 0
  of_drawn : drew = true → o.state.pendingRedraws = m.requestRedraw.pendingRedraws ∧
    o.log.count .redrawDropped = m.redrawNotices.length

variable {supply : Supply} {m : Machine} {word : Word} {ins : Instruction}

theorem Pictures.of_unchanged {o : Outcome Machine Unit} (hframe : o.state.frame = m.frame)
    (hpending : o.state.pendingRedraws = m.pendingRedraws)
    (hlog : .redrawDropped ∉ o.log) : m.Pictures false o :=
  ⟨fun _ => ⟨hframe, hpending, List.count_eq_zero.mpr hlog⟩, by simp⟩

theorem count_redrawNotices (m : Machine) :
    m.redrawNotices.count .redrawDropped = m.redrawNotices.length := by
  unfold redrawNotices
  split <;> rfl

theorem pictures_perform (supply : Supply) (m : Machine) (word : Word) :
    m.Pictures (m.actionDraws supply (.perform word)) (m.perform supply word) := by
  cases hd : Instruction.decode word with
  | error fault =>
    have hdraws : m.actionDraws supply (.perform word) = false := by
      simp [actionDraws, instruction?, hd, Except.toOption]
    rw [hdraws, perform_of_unknown hd]
    exact .of_unchanged rfl rfl List.not_mem_nil
  | ok ins =>
    cases hr : m.refusal? ins with
    | some fault =>
      have hfails : m.perform supply word =
          ⟨.error fault, m, [.executing word ins m.registers m.index m.pc]⟩ := by
        rw [perform_of_decode hd, execute_of_refusal hr]
        rfl
      have hdraws : m.actionDraws supply (.perform word) = false := by
        rw [actionDraws, carryOut, hfails]
        rfl
      rw [hdraws, hfails]
      exact .of_unchanged rfl rfl (by simp)
    | none =>
      have hdraws : m.actionDraws supply (.perform word) = ins.draws := by
        have hok := execute_of_accepted hr supply
        rw [actionDraws, carryOut, perform_of_decode hd, instruction?, hd]
        simp [Outcome.after, hok, Except.toOption, Except.isOk, Except.toBool]
      have hlog := log_perform_of_decode supply m hd
      have hstate : (m.perform supply word).state = (m.execute supply ins).state := by
        rw [perform_of_decode hd]
        rfl
      rw [hdraws]
      constructor
      · intro hquiet
        obtain ⟨hframe, hpending, hnone⟩ := picture_execute_of_not_draws hr hquiet supply
        rw [hstate, hlog, hnone]
        exact ⟨hframe, hpending, by simp⟩
      · intro hdrew
        obtain ⟨hpending, hnotices⟩ := pendingRedraws_execute_of_draws hr hdrew supply
        rw [hstate, hlog, hnotices, List.count_cons_of_ne (by simp)]
        exact ⟨hpending, count_redrawNotices m⟩

/-- A step does to the frame what the word that it reads does, and notes the same. -/
theorem step_picture_of_fetch (supply : Supply) (h : m.memory.wordAt? m.pc = .ok word) :
    (m.step supply).result = (m.perform supply word).result ∧
      (m.step supply).state.frame = (m.perform supply word).state.frame ∧
      (m.step supply).state.pendingRedraws = (m.perform supply word).state.pendingRedraws := by
  rw [step_of_fetch h]
  cases hp : (m.perform supply word).result with
  | error fault =>
    rw [Outcome.andThen_of_error hp]
    exact ⟨rfl, rfl, rfl⟩
  | ok answer =>
    rw [Outcome.andThen_of_ok hp]
    exact ⟨rfl, rfl, rfl⟩

theorem pictures_step (supply : Supply) (m : Machine) :
    m.Pictures (m.actionDraws supply (.operate .step)) (m.step supply) := by
  cases hw : m.memory.wordAt? m.pc with
  | error fault =>
    have hfails : m.step supply = .failed fault m := by rw [step, hw]
    have hdraws : m.actionDraws supply (.operate .step) = false := by
      rw [actionDraws, carryOut, hfails]
      rfl
    rw [hdraws, hfails]
    exact .of_unchanged rfl rfl List.not_mem_nil
  | ok word =>
    obtain ⟨hresult, hframe, hpending⟩ := step_picture_of_fetch supply hw
    have hcurrent : m.current? = (Instruction.decode word).toOption := by
      rw [current?, hw]
      cases hd : Instruction.decode word <;> simp [hd, Except.toOption]
    have hdraws : m.actionDraws supply (.operate .step) =
        m.actionDraws supply (.perform word) := by
      rw [actionDraws, actionDraws, carryOut, carryOut, instruction?, instruction?, hresult,
        hcurrent]
    obtain ⟨hquiet, hdrawn⟩ := pictures_perform supply m word
    rw [hdraws]
    constructor
    · rw [hframe, hpending, log_step_of_fetch hw]
      exact hquiet
    · rw [hpending, log_step_of_fetch hw]
      exact hdrawn

/-- Taking a request apart, an action does to the frame what its instruction does. -/
theorem pictures_carryOut (supply : Supply) {m : Machine} {action : Action}
    (h : m.actionTakes action = false) :
    m.Pictures (m.actionDraws supply action) (m.carryOut supply action) := by
  cases action with
  | perform word => exact pictures_perform supply m word
  | operate op =>
    cases op with
    | step => exact pictures_step supply m
    | press code =>
      refine .of_unchanged rfl rfl ?_
      show Notice.redrawDropped ∉ Keypad.pressNotices code
      unfold Keypad.pressNotices
      split <;> simp
    | releaseKeys => exact .of_unchanged rfl rfl List.not_mem_nil
    | takeRedraw =>
      have hsome : m.takeRedraw?.isSome = false := h
      have hnone : m.takeRedraw? = none :=
        Option.not_isSome_iff_eq_none.mp (Bool.eq_false_iff.mp hsome)
      rw [carryOut, hnone]
      exact .of_unchanged rfl rfl List.not_mem_nil
    | install program =>
      have hdraws : m.actionDraws supply (.operate (.install program)) = false :=
        Bool.and_false _
      rw [hdraws, carryOut, install]
      split
      · exact .of_unchanged rfl rfl List.not_mem_nil
      · exact .of_unchanged rfl rfl (by simp)

theorem pendingRedraws_le_of_drawn {drew : Bool} {o : Outcome Machine Unit}
    (h : m.Pictures drew o) (hle : m.pendingRedraws ≤ 5) : o.state.pendingRedraws ≤ 5 := by
  cases drew with
  | false => rwa [(h.of_quiet rfl).2.1]
  | true =>
    rw [(h.of_drawn rfl).1, pendingRedraws_requestRedraw]
    split <;> omega

/-- A request that is made is pending or dropped. -/
theorem pendingRedraws_add_dropped (m : Machine) :
    m.requestRedraw.pendingRedraws + m.redrawNotices.length = m.pendingRedraws + 1 := by
  rw [pendingRedraws_requestRedraw, redrawNotices]
  split <;> rfl

theorem takes_cases {action : Action} (h : m.actionTakes action = true) :
    action = .operate .takeRedraw ∧ 1 ≤ m.pendingRedraws := by
  cases action with
  | perform word => contradiction
  | operate op =>
    cases op with
    | takeRedraw =>
      have hsome : m.takeRedraw?.isSome = true := h
      rw [takeRedraw?] at hsome
      split at hsome
      · contradiction
      · exact ⟨rfl, by omega⟩
    | _ => contradiction

end Machine

/-- A machine, and somebody who copies its frame whenever there is a request to take. -/
structure Watched where
  machine : Machine
  copy : Frame
  /-- Requests that were there to take. -/
  taken : Nat
  /-- Instructions that drew. -/
  drawn : Nat
  log : List Notice

namespace Watched

/-- The first copy is the frame as it is. -/
def start (m : Machine) : Watched := ⟨m, m.frame, 0, 0, []⟩

def act (supply : Supply) (w : Watched) (action : Action) : Watched :=
  let o := w.machine.carryOut supply action
  { machine := o.state
    copy := if w.machine.actionTakes action then o.state.frame else w.copy
    taken := w.taken + if w.machine.actionTakes action then 1 else 0
    drawn := w.drawn + if w.machine.actionDraws supply action then 1 else 0
    log := w.log ++ o.log }

def run (supply : Supply) (w : Watched) (actions : List Action) : Watched :=
  actions.foldl (act supply) w

/-- The copy is out of date only while a request is pending, and every request that was made has
been taken or dropped or is pending. -/
structure UpToDate (w : Watched) : Prop where
  copy_eq : w.machine.pendingRedraws = 0 → w.copy = w.machine.frame
  pending_le : w.machine.pendingRedraws ≤ 5
  drawn_eq : w.drawn = w.taken + w.machine.pendingRedraws + w.log.count .redrawDropped

theorem upToDate_start {m : Machine} (h : m.pendingRedraws = 0) : (start m).UpToDate where
  copy_eq _ := rfl
  pending_le := Nat.le_trans (Nat.le_of_eq h) (Nat.zero_le 5)
  drawn_eq := by simp [start, h]

variable {supply : Supply} {w : Watched} {action : Action}

/-- Taking a request brings the copy up to date. -/
theorem UpToDate.act_of_takes (h : w.UpToDate) (ht : w.machine.actionTakes action = true) :
    (w.act supply action).UpToDate := by
  obtain ⟨rfl, hpos⟩ := Machine.takes_cases ht
  have hact : w.act supply (.operate .takeRedraw) =
      { w with
        machine := { w.machine with pendingRedraws := w.machine.pendingRedraws - 1 }
        copy := w.machine.frame
        taken := w.taken + 1 } := by
    rw [act, ht, Machine.carryOut, Machine.takeRedraw_eq]
    simp [Outcome.done, Machine.actionDraws, Machine.instruction?]
  have hle := h.pending_le
  have hdrawn := h.drawn_eq
  rw [hact]
  refine ⟨fun _ => rfl, ?_, ?_⟩
  · show w.machine.pendingRedraws - 1 ≤ 5
    omega
  · show w.drawn = w.taken + 1 + (w.machine.pendingRedraws - 1) + w.log.count .redrawDropped
    omega

/-- Drawing leaves a request behind, an old one if not a new one. -/
theorem UpToDate.act_of_not_takes (h : w.UpToDate)
    (ht : w.machine.actionTakes action = false) : (w.act supply action).UpToDate := by
  have hp := Machine.pictures_carryOut supply ht
  have hact : w.act supply action =
      { w with
        machine := (w.machine.carryOut supply action).state
        drawn := w.drawn + if w.machine.actionDraws supply action then 1 else 0
        log := w.log ++ (w.machine.carryOut supply action).log } := by
    rw [act, ht]
    rfl
  rw [hact]
  have hdrawn := h.drawn_eq
  have hle := Machine.pendingRedraws_le_of_drawn hp h.pending_le
  cases hd : w.machine.actionDraws supply action with
  | false =>
    rw [hd] at hp
    obtain ⟨hframe, hpending, hcount⟩ := hp.of_quiet rfl
    refine ⟨?_, hle, ?_⟩
    · show (w.machine.carryOut supply action).state.pendingRedraws = 0 →
        w.copy = (w.machine.carryOut supply action).state.frame
      rw [hframe, hpending]
      exact h.copy_eq
    · show w.drawn + 0 = w.taken + (w.machine.carryOut supply action).state.pendingRedraws + _
      rw [List.count_append, hpending, hcount]
      exact hdrawn
  | true =>
    rw [hd] at hp
    obtain ⟨hpending, hcount⟩ := hp.of_drawn rfl
    have hkept := Machine.pendingRedraws_add_dropped w.machine
    refine ⟨?_, hle, ?_⟩
    · intro hnone
      have hnone' : w.machine.requestRedraw.pendingRedraws = 0 := hpending.symm.trans hnone
      rw [Machine.pendingRedraws_requestRedraw] at hnone'
      split at hnone' <;> omega
    · show w.drawn + 1 = w.taken + (w.machine.carryOut supply action).state.pendingRedraws + _
      rw [List.count_append, hpending, hcount]
      omega

theorem upToDate_act (h : w.UpToDate) (supply : Supply) (action : Action) :
    (w.act supply action).UpToDate := by
  cases ht : w.machine.actionTakes action with
  | true => exact h.act_of_takes ht
  | false => exact h.act_of_not_takes ht

theorem upToDate_run (h : w.UpToDate) (supply : Supply) (actions : List Action) :
    (w.run supply actions).UpToDate := by
  induction actions generalizing w with
  | nil => exact h
  | cons action actions ih => exact ih (upToDate_act h supply action)

/-- A machine that begins without requests, whatever is done to it and whoever copies its frame
when there is a request to take: with no request pending the copy is the frame, at most five
requests are pending, and every instruction that drew has had its request taken or dropped with a
notice, or it is still pending. -/
theorem copy_never_misses (supply : Supply) (m : Machine) (hnone : m.pendingRedraws = 0)
    (actions : List Action) :
    let w := (start m).run supply actions
    (w.machine.pendingRedraws = 0 → w.copy = w.machine.frame) ∧
      w.machine.pendingRedraws ≤ 5 ∧
      w.drawn = w.taken + w.machine.pendingRedraws + w.log.count .redrawDropped := by
  intro w
  obtain ⟨hcopy, hpending, hdrawn⟩ := upToDate_run (upToDate_start hnone) supply actions
  exact ⟨hcopy, hpending, hdrawn⟩

/-- Six times cleared before the first request is taken. -/
theorem copy_never_misses_six_clears :
    let supply : Supply := ⟨fun _ => 0, Supply.heldKey⟩
    let w := (start Machine.initial).run supply
      (List.replicate 6 (.perform 0x00E0) ++ List.replicate 5 (.operate .takeRedraw))
    w.copy = w.machine.frame ∧ w.drawn = 6 ∧ w.taken = 5 ∧ w.log.count .redrawDropped = 1 := by
  intro supply w
  have hw : w.machine.pendingRedraws = 0 ∧ w.taken = 5 ∧ w.log.count .redrawDropped = 1 := by
    decide +kernel
  obtain ⟨hpending, htaken, hdropped⟩ := hw
  obtain ⟨hcopy, -, hdrawn⟩ := copy_never_misses supply Machine.initial rfl
    (List.replicate 6 (.perform 0x00E0) ++ List.replicate 5 (.operate .takeRedraw))
  refine ⟨hcopy hpending, ?_, htaken, hdropped⟩
  rw [hdrawn, htaken, hpending, hdropped]

end Watched
end Chip8
