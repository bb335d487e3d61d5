import Chip8.Proofs.Machine.Effect

/-!
# What a machine notes

Before an instruction it is noted what is about to be carried out; after that only a dropped request
to show the frame is noted. A word that is no instruction, and a word that cannot be read, are not
noted at all. What operations other than words and steps note is not said here.
-/
namespace Chip8.Machine

variable {supply : Supply} {m : Machine} {ins : Instruction} {word : Word}

theorem log_execute_of_refusal {fault : Fault} (h : m.refusal? ins = some fault) :
    (m.execute supply ins).log = [] := by
  rw [execute_of_refusal h]
  rfl

/-- An instruction notes a dropped request at most. -/
theorem log_execute_subset (supply : Supply) (m : Machine) (ins : Instruction) :
    (m.execute supply ins).log ⊆ [.redrawDropped] := by
  cases hr : m.refusal? ins with
  | some fault => simp [log_execute_of_refusal hr]
  | none =>
    cases hd : ins.draws with
    | false => simp [(picture_execute_of_not_draws hr hd supply).2.2]
    | true =>
      rw [(pendingRedraws_execute_of_draws hr hd supply).2, redrawNotices]
      split <;> simp

theorem log_perform_of_decode (supply : Supply) (m : Machine)
    (h : Instruction.decode word = .ok ins) :
    (m.perform supply word).log =
      .executing word ins m.registers m.index m.pc :: (m.execute supply ins).log := by
  rw [perform_of_decode h]
  rfl

/-- Counting down notes nothing. -/
theorem log_step_of_fetch (h : m.memory.wordAt? m.pc = .ok word) :
    (m.step supply).log = (m.perform supply word).log := by
  rw [step_of_fetch h]
  unfold Outcome.andThen
  split
  · exact List.append_nil _
  · rfl

/-- What a word gives notice of is the instruction it stands for, and a dropped request. -/
theorem mem_log_perform {notice : Notice} (h : notice ∈ (m.perform supply word).log) :
    (∃ ins v index pc, notice = .executing word ins v index pc) ∨ notice = .redrawDropped := by
  cases hd : Instruction.decode word with
  | error fault =>
    rw [perform_of_unknown hd] at h
    contradiction
  | ok ins =>
    rw [log_perform_of_decode supply m hd] at h
    rcases List.mem_cons.mp h with rfl | h
    · exact .inl ⟨_, _, _, _, rfl⟩
    · exact .inr (List.mem_singleton.mp (log_execute_subset supply m ins h))

theorem mem_log_step {notice : Notice} (h : notice ∈ (m.step supply).log) :
    (∃ word ins v index pc, notice = .executing word ins v index pc) ∨
      notice = .redrawDropped := by
  cases hw : m.memory.wordAt? m.pc with
  | error fault =>
    rw [step, hw] at h
    contradiction
  | ok word =>
    rw [log_step_of_fetch hw] at h
    rcases mem_log_perform h with hexecuting | hdropped
    · exact .inl ⟨word, hexecuting⟩
    · exact .inr hdropped

end Chip8.Machine
