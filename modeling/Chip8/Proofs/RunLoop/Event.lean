import Chip8.RunLoop.Round

/-!
# What happens to a run loop

From outside, signals are offered to a run loop, its producer hangs up, and it is made to do a
round; any number of these, in any order. A round that fails or asks to shut down may be followed by
another. `rounds` are the run loops that the rounds of a history began with.
-/
namespace Chip8

/-- Something that happens to a run loop. -/
inductive Event where
  | offer (signal : Signal)
  | hangUp
  | round
  deriving DecidableEq, Repr

namespace RunLoop

variable {δ κ : Type} [Display δ] [Clock κ]

/-- The first part of a round: what is due is done. -/
def doDue (supply : Supply) (s : RunLoop δ κ) : Outcome (RunLoop δ κ) Unit :=
  (s.releaseIfDue (Clock.now s.clock)).stepIfDue supply (Clock.now s.clock)

theorem round_eq (supply : Supply) (s : RunLoop δ κ) :
    s.round supply = (s.doDue supply).andThen fun _ t =>
      t.showPending.andThen fun _ shown => shown.await := rfl

theorem round_of_error {supply : Supply} {s : RunLoop δ κ} {fault : Fault}
    (h : (s.doDue supply).result = .error fault) :
    s.round supply = ⟨.error fault, (s.doDue supply).state, (s.doDue supply).log⟩ := by
  rw [round_eq, Outcome.andThen_of_error h]

theorem round_of_ok {supply : Supply} {s : RunLoop δ κ} (h : (s.doDue supply).result = .ok ()) :
    s.round supply = ((s.doDue supply).state.showPending.andThen fun _ shown => shown.await).after
      (s.doDue supply).log := by
  rw [round_eq, Outcome.andThen_of_ok h]

def act (supply : Supply) (s : RunLoop δ κ) : Event → RunLoop δ κ
  | .offer signal => { s with inbound := s.inbound.offer signal }
  | .hangUp => { s with inbound := s.inbound.hangUp }
  | .round => (s.round supply).state

/-- The run loop after some events, the first of the list first. -/
def after (supply : Supply) : RunLoop δ κ → List Event → RunLoop δ κ
  | s, [] => s
  | s, event :: events => after supply (s.act supply event) events

/-- The run loops that the rounds among some events began with. -/
def rounds (supply : Supply) : RunLoop δ κ → List Event → List (RunLoop δ κ)
  | _, [] => []
  | s, .round :: events => s :: rounds supply (s.act supply .round) events
  | s, event :: events => rounds supply (s.act supply event) events

theorem rounds_append (supply : Supply) (s : RunLoop δ κ) (first second : List Event) :
    s.rounds supply (first ++ second) =
      s.rounds supply first ++ (s.after supply first).rounds supply second := by
  induction first generalizing s with
  | nil => rfl
  | cons event first ih =>
    have hrest := ih (s.act supply event)
    cases event with
    | offer signal => exact hrest
    | hangUp => exact hrest
    | round => exact congrArg (s :: ·) hrest

/-- What every event keeps holds after a history. -/
theorem after_induction {supply : Supply} {P : RunLoop δ κ → Prop}
    (keeps : ∀ s event, P s → P (s.act supply event)) (s : RunLoop δ κ) (events : List Event)
    (hs : P s) : P (s.after supply events) := by
  induction events generalizing s with
  | nil => exact hs
  | cons event events ih => exact ih (s.act supply event) (keeps s event hs)

/-- What every event keeps holds at every round. -/
theorem rounds_induction {supply : Supply} {P : RunLoop δ κ → Prop}
    (keeps : ∀ s event, P s → P (s.act supply event)) (s : RunLoop δ κ) (events : List Event)
    (hs : P s) : ∀ r ∈ s.rounds supply events, P r := by
  induction events generalizing s with
  | nil => simp [rounds]
  | cons event events ih =>
    have hrest := ih (s.act supply event) (keeps s event hs)
    intro r hr
    cases event with
    | offer signal => exact hrest r hr
    | hangUp => exact hrest r hr
    | round =>
      rcases List.mem_cons.mp hr with rfl | hr
      · exact hs
      · exact hrest r hr

end RunLoop
end Chip8
