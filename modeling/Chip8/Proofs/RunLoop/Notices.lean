import Chip8.Proofs.Machine.Log
import Chip8.Proofs.RunLoop.Operations

/-!
# What a round notes

Beside the traces of its step, a round notes at most how its wait ended: a key that the keypad does
not have, or that nobody is left to send. What a whole run notes at its begin and its end is not
said here.
-/
namespace Chip8

/-- The notices of a log that warn. -/
def Notice.warnings (log : List Notice) : List Notice :=
  log.filter fun notice => notice.level = .warn

namespace RunLoop

variable {δ κ : Type} {supply : Supply} {notice : Notice}

theorem log_showTimes [Display δ] (count : Nat) (s : RunLoop δ κ) :
    (s.showTimes count).log = [] := by
  induction count generalizing s with
  | zero => rfl
  | succ count ih =>
    unfold showTimes
    split
    · rfl
    · split
      · exact ih _
      · rfl

variable [Clock κ] {s : RunLoop δ κ}

theorem level_of_mem_log_doDue (h : notice ∈ (s.doDue supply).log) : notice.level = .trace := by
  rw [doDue, stepIfDue] at h
  split at h
  · rcases Machine.mem_log_step h with ⟨_, _, _, _, _, rfl⟩ | rfl
    · rfl
    · rfl
  · contradiction

theorem mem_log_await (h : notice ∈ s.await.log) :
    (∃ code, notice = .noSuchKey code ∧ 0xF < code.toNat ∧
        (Clock.wait s.clock s.inbound s.deadline).ending.signal? = some (.key code)) ∨
      notice = .inputGone := by
  unfold await at h
  dsimp only at h
  cases hending : (Clock.wait s.clock s.inbound s.deadline).ending with
  | arrival signal =>
    rw [hending] at h
    cases signal with
    | key code =>
      change notice ∈ Keypad.pressNotices code at h
      unfold Keypad.pressNotices at h
      split at h
      · contradiction
      · exact .inl ⟨code, List.mem_singleton.mp h, by omega, rfl⟩
    | quit => contradiction
  | deadline =>
    rw [hending] at h
    contradiction
  | deserted =>
    rw [hending] at h
    unfold wakeUp at h
    dsimp only at h
    split at h
    · contradiction
    · exact .inr (List.mem_singleton.mp h)

variable [Display δ]

theorem log_prepare (supply : Supply) (s : RunLoop δ κ) :
    (s.prepare supply).log = (s.doDue supply).log := by
  rw [prepare]
  unfold Outcome.andThen
  split
  · show _ ++ (showTimes _ _).log = _
    rw [log_showTimes, List.append_nil]
  · rfl

/-- A round warns of nothing before its wait. -/
theorem warnings_prepare (supply : Supply) (s : RunLoop δ κ) :
    Notice.warnings (s.prepare supply).log = [] := by
  rw [log_prepare]
  apply List.filter_eq_nil_iff.mpr
  intro notice hnotice
  rw [level_of_mem_log_doDue hnotice]
  decide

theorem mem_log_round (h : notice ∈ (s.round supply).log) :
    notice.level = .trace ∨
      (∃ code, notice = .noSuchKey code ∧ 0xF < code.toNat ∧
        s.taken? supply = some (.key code)) ∨
      notice = .inputGone := by
  have hbefore : notice ∈ (s.prepare supply).log → notice.level = .trace := by
    rw [log_prepare]
    exact level_of_mem_log_doDue
  cases hresult : (s.prepare supply).result with
  | error fault =>
    rw [round_of_prepare_error hresult] at h
    exact .inl (hbefore h)
  | ok answer =>
    rw [round_of_prepare_ok hresult] at h
    rcases List.mem_append.mp h with h | h
    · exact .inl (hbefore h)
    · rw [taken?_of_ok hresult]
      exact .inr (mem_log_await h)

end RunLoop
end Chip8
