import Chip8.RunLoop.Round

/-!
# A whole run

Rounds until one asks to shut down or fails. The log begins with a notice of the two periods and
ends with one that says why the run ended. A run need not end, so it is given a number of rounds to
try and has no answer if they do not suffice; `runAfter_mono` says that more rounds never change an
answer.
-/
namespace Chip8.RunLoop

variable {δ κ : Type} [Display δ] [Clock κ]

/-- Up to `rounds` rounds, after the notices `told`, the newest of them first. -/
def runAfter (supply : Supply) :
    Nat → List Notice → RunLoop δ κ → Option (Outcome (RunLoop δ κ) Unit)
  | 0, _, _ => none
  | rounds + 1, told, s =>
    let turn := s.round supply
    let told := turn.log.reverse ++ told
    match turn.result with
    | .ok .proceed => runAfter supply rounds told turn.state
    | .ok .shutDown => some ⟨.ok (), turn.state, (.quitting :: told).reverse⟩
    | .error fault =>
      some ⟨.error fault, turn.state,
        (.halted turn.state.machine.pc fault :: told).reverse⟩

/-- Runs to the end, if that comes within `rounds` rounds. -/
def run (supply : Supply) (rounds : Nat) (s : RunLoop δ κ) :
    Option (Outcome (RunLoop δ κ) Unit) :=
  s.runAfter supply rounds [.running s.stepping.period s.releasing.period]

theorem runAfter_mono {supply : Supply} {rounds more : Nat} (h : rounds ≤ more)
    {told : List Notice} {s : RunLoop δ κ} {o : Outcome (RunLoop δ κ) Unit}
    (ho : runAfter supply rounds told s = some o) : runAfter supply more told s = some o := by
  induction rounds generalizing more told s with
  | zero => cases ho
  | succ rounds ih =>
    obtain ⟨more, rfl⟩ : ∃ k, more = k + 1 := ⟨more - 1, by omega⟩
    rw [runAfter] at ho ⊢
    cases hr : (s.round supply).result with
    | error fault => simpa only [hr] using ho
    | ok verdict =>
      cases verdict with
      | proceed =>
        simp only [hr] at ho ⊢
        exact ih (by omega) ho
      | shutDown => simpa only [hr] using ho

end Chip8.RunLoop
