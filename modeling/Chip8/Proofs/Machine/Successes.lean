import Chip8.Proofs.Machine.Operation
import Chip8.Proofs.Machine.Parts

/-!
# The successful steps of a run

`successes` lists the machines that the successful steps of a run start from. Any other operation,
a step that fails among them, changes the memory, the keypad and the requests to show the frame at
most, and does so whatever is supplied: `act_cases`. What a successful step does is said with the
parts of the machine.
-/
namespace Chip8.Machine

variable {supply : Supply} {m : Machine}

/-- The machines that the successful steps of a run start from, in order. -/
def successes (supply : Supply) : Machine → List Operation → List Machine
  | _, [] => []
  | m, op :: ops =>
    if op = .step ∧ (m.step supply).result.isOk then m :: successes supply (m.act supply op) ops
    else successes supply (m.act supply op) ops

theorem successes_step_of_ok (h : (m.step supply).result = .ok ()) (ops : List Operation) :
    m.successes supply (.step :: ops) = m :: (m.act supply .step).successes supply ops := by
  rw [successes, h]
  rfl

/-- An operation is a step that succeeds and counts, or it leaves most of the machine alone and does
the same with any supply. -/
theorem act_cases (supply : Supply) (m : Machine) (op : Operation) :
    (op = .step ∧ (m.step supply).result = .ok () ∧ ∀ ops,
      m.successes supply (op :: ops) = m :: (m.act supply op).successes supply ops) ∨
    ((∃ memory keypad pending, ∀ other, m.act other op =
        { m with memory := memory, keypad := keypad, pendingRedraws := pending }) ∧ ∀ ops,
      m.successes supply (op :: ops) = (m.act supply op).successes supply ops) := by
  cases op with
  | step =>
    cases h : (m.step supply).result with
    | ok => exact .inl ⟨rfl, rfl, successes_step_of_ok h⟩
    | error fault =>
      obtain ⟨log, -, hstep⟩ := step_of_refusal (stepRefusal_of_error h)
      refine .inr ⟨⟨m.memory, m.keypad, m.pendingRedraws, fun other => ?_⟩, fun ops => ?_⟩
      · rw [act, hstep other]
      · rw [successes, h]
        rfl
  | takeRedraw => exact .inr ⟨⟨_, _, _, fun _ => takeRedraw_eq m⟩, fun ops => rfl⟩
  | install program =>
    obtain ⟨memory, hinstall⟩ := m.install_state program
    exact .inr ⟨⟨_, _, _, fun _ => hinstall⟩, fun ops => rfl⟩
  | press | releaseKeys => exact .inr ⟨⟨_, _, _, fun _ => rfl⟩, fun ops => rfl⟩

theorem successes_append (first second : List Operation) :
    m.successes supply (first ++ second) =
      m.successes supply first ++ (m.run supply first).successes supply second := by
  induction first generalizing m with
  | nil => rfl
  | cons op ops ih =>
    rw [List.cons_append, run]
    rcases act_cases supply m op with ⟨-, -, hcount⟩ | ⟨-, hcount⟩
    · rw [hcount, hcount, ih, List.cons_append]
    · rw [hcount, hcount, ih]

/-- A successful step of a run splits the run's operations, and the other successful steps with
them. -/
theorem run_split {ops : List Operation} {earlier later : List Machine} {s : Machine}
    (h : m.successes supply ops = earlier ++ s :: later) :
    ∃ before after, ops = before ++ .step :: after ∧ m.run supply before = s ∧
      m.successes supply before = earlier ∧ (s.step supply).result = .ok () ∧
      (s.act supply .step).successes supply after = later := by
  induction ops generalizing m earlier with
  | nil => exact absurd h (by simp [successes])
  | cons op ops ih =>
    rcases act_cases supply m op with ⟨rfl, hok, hcount⟩ | ⟨-, hcount⟩
    · rw [hcount] at h
      -- with nothing earlier the step is this operation, otherwise it is one of the rest
      cases earlier with
      | nil =>
        obtain ⟨rfl, hlater⟩ := List.cons.inj h
        exact ⟨[], ops, rfl, rfl, rfl, hok, hlater⟩
      | cons first earlier =>
        obtain ⟨rfl, hrest⟩ := List.cons.inj h
        obtain ⟨before, after, rfl, hrun, hearlier, hs, hlater⟩ := ih hrest
        exact ⟨.step :: before, after, rfl, hrun, by rw [hcount, hearlier], hs, hlater⟩
    · rw [hcount] at h
      obtain ⟨before, after, rfl, hrun, hearlier, hs, hlater⟩ := ih h
      exact ⟨op :: before, after, rfl, hrun, by rw [hcount, hearlier], hs, hlater⟩

end Chip8.Machine
