import Chip8.Notice

/-!
# Outcomes

What an operation on a state leaves behind: its answer or a fault, the state it ended in, and the
notices it gave, in order. The state is there also when the operation failed, so that what a
failure changes can be said.
-/
namespace Chip8

/-- What is left of an operation on states `σ` that answers `α`. -/
structure Outcome (σ α : Type) where
  result : Except Fault α
  state : σ
  log : List Notice

namespace Outcome

variable {σ τ α β : Type}

def done (answer : α) (state : σ) : Outcome σ α := ⟨.ok answer, state, []⟩

def failed (fault : Fault) (state : σ) : Outcome σ α := ⟨.error fault, state, []⟩

/-- The fault that the operation ended with, if it failed. -/
def fault? (o : Outcome σ α) : Option Fault :=
  match o.result with
  | .ok _ => none
  | .error fault => some fault

/-- The same outcome after some earlier notices. -/
def after (earlier : List Notice) (o : Outcome σ α) : Outcome σ α :=
  { o with log := earlier ++ o.log }

/-- Goes on with `next` after a success; after a failure nothing more happens. -/
def andThen (o : Outcome σ α) (next : α → σ → Outcome σ β) : Outcome σ β :=
  match o.result with
  | .ok answer => (next answer o.state).after o.log
  | .error fault => ⟨.error fault, o.state, o.log⟩

/-- Sees the state of an operation as part of a larger one, on success and on failure. -/
def within (o : Outcome σ α) (place : σ → τ) : Outcome τ α := ⟨o.result, place o.state, o.log⟩

theorem andThen_of_ok {o : Outcome σ α} {answer : α} (h : o.result = .ok answer)
    (next : α → σ → Outcome σ β) :
    o.andThen next = (next answer o.state).after o.log := by
  simp only [andThen, h]

theorem andThen_of_error {o : Outcome σ α} {fault : Fault} (h : o.result = .error fault)
    (next : α → σ → Outcome σ β) :
    o.andThen next = ⟨.error fault, o.state, o.log⟩ := by
  simp only [andThen, h]

theorem fault?_eq_some_iff {o : Outcome σ α} {fault : Fault} :
    o.fault? = some fault ↔ o.result = .error fault := by
  unfold fault?
  cases o.result <;> simp

@[simp] theorem after_nil (o : Outcome σ α) : o.after [] = o := rfl

theorem andThen_after (earlier : List Notice) (o : Outcome σ α) (next : α → σ → Outcome σ β) :
    (o.after earlier).andThen next = (o.andThen next).after earlier := by
  unfold andThen
  cases h : o.result with
  | ok answer => simp only [after, h, List.append_assoc]
  | error fault => simp only [after, h]

theorem andThen_andThen {γ : Type} (o : Outcome σ α) (next : α → σ → Outcome σ β)
    (last : β → σ → Outcome σ γ) :
    (o.andThen next).andThen last = o.andThen fun answer state =>
      (next answer state).andThen last := by
  cases h : o.result with
  | ok answer => rw [andThen_of_ok h, andThen_of_ok h, andThen_after]
  | error fault =>
    rw [andThen_of_error h, andThen_of_error h]
    rfl

/-- What goes on in a larger state as it does in its part goes on alike seen as a part of it. -/
theorem andThen_within (o : Outcome σ α) (place : σ → τ) {next : α → σ → Outcome σ β}
    {next' : α → τ → Outcome τ β}
    (h : ∀ answer state, next' answer (place state) = (next answer state).within place) :
    (o.within place).andThen next' = (o.andThen next).within place := by
  cases hr : o.result with
  | ok answer =>
    have hr' : (o.within place).result = .ok answer := hr
    rw [andThen_of_ok hr, andThen_of_ok hr']
    show (next' answer (place o.state)).after o.log = _
    rw [h]
    rfl
  | error fault =>
    have hr' : (o.within place).result = .error fault := hr
    rw [andThen_of_error hr, andThen_of_error hr']
    rfl

end Outcome
end Chip8
