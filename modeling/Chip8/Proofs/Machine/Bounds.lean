import Chip8.Proofs.Instruction.Decoding
import Chip8.Proofs.Machine.Effect

/-!
# Bounds that every machine keeps

`InBounds` holds of a machine that has just been switched on and is kept by every operation. The
program counter may leave memory, by a jump with an offset or by running past the end, but not by
much; what a call leaves behind is an address that an instruction was read from. That the depth of
the call stack and the cells of the frame stay in range is part of their types.
-/
namespace Chip8.Machine

/-- The bounds on the numbers whose types allow more. -/
structure InBounds (m : Machine) : Prop where
  pc_le : m.pc.toNat ≤ 0x10FE
  live_le : ∀ addr ∈ m.calls.live, addr.toNat ≤ 0xFFE
  pending_le : m.pendingRedraws ≤ 5

variable {m : Machine} {ins : Instruction}

theorem inBounds_initial : initial.InBounds where
  pc_le := by decide
  live_le := by simp [initial]
  pending_le := by decide

/-- An instruction is only read from where a whole word fits. -/
theorem pc_of_fetch {word : Word} (h : m.memory.wordAt? m.pc = .ok word) :
    m.pc.toNat ≤ 0xFFE := by
  unfold Memory.wordAt? at h
  split at h
  · omega
  · contradiction

theorem toNat_add_two {w : Word} (h : w.toNat ≤ 0xFFE) : (w + 2).toNat = w.toNat + 2 := by
  have hn : (2 : Word).toNat = 2 := rfl
  rw [UInt16.toNat_add, hn]
  omega

theorem toNat_add_four {w : Word} (h : w.toNat ≤ 0xFFE) : (w + 4).toNat = w.toNat + 4 := by
  have hn : (4 : Word).toNat = 4 := rfl
  rw [UInt16.toNat_add, hn]
  omega

theorem toNat_skip_le {w : Word} (h : w.toNat ≤ 0xFFE) (condition : Bool) :
    (if condition then w + 4 else w + 2).toNat ≤ 0x10FE := by
  have htwo := toNat_add_two h
  have hfour := toNat_add_four h
  split <;> omega

theorem toNat_add_byte {w : Word} (h : w.toNat < 4096) (byte : UInt8) :
    (w + byte.toUInt16).toNat = w.toNat + byte.toNat := by
  have hb := byte.toNat_lt
  rw [UInt16.toNat_add, UInt8.toNat_toUInt16]
  omega

theorem nextPc_le (hpc : m.pc.toNat ≤ 0xFFE) (hlive : ∀ addr ∈ m.calls.live, addr.toNat ≤ 0xFFE)
    (hw : ins.WellFormed) (supply : Supply) : (m.nextPc supply ins).toNat ≤ 0x10FE := by
  have htwo := toNat_add_two hpc
  cases ins with
  | jump addr => exact Nat.le_trans (Nat.le_of_lt hw) (by decide)
  | call addr => exact Nat.le_trans (Nat.le_of_lt hw) (by decide)
  | ret =>
    have hhead : (m.calls.live.headD 0).toNat ≤ 0xFFE := by
      cases hl : m.calls.live with
      | nil => decide
      | cons addr rest => exact hlive addr (by rw [hl]; exact List.mem_cons_self)
    rw [nextPc_ret, toNat_add_two hhead]
    omega
  | jumpOffset addr =>
    have haddr : addr.toNat < 4096 := hw
    have hb := (m.reg 0).toNat_lt
    rw [nextPc_jumpOffset, toNat_add_byte haddr]
    omega
  | skipIfByte | skipUnlessByte | skipIfSame | skipUnlessSame | skipIfHeld | skipUnlessHeld =>
    exact toNat_skip_le hpc _
  | awaitKey x =>
    rw [nextPc_awaitKey]
    split <;> omega
  | _ =>
    show (m.pc + 2).toNat ≤ 0x10FE
    omega

theorem nextLive_le (hpc : m.pc.toNat ≤ 0xFFE)
    (hlive : ∀ addr ∈ m.calls.live, addr.toNat ≤ 0xFFE) (ins : Instruction) :
    ∀ addr ∈ m.nextLive ins, addr.toNat ≤ 0xFFE := by
  intro addr ha
  cases ins with
  | call target =>
    rcases List.mem_cons.mp ha with rfl | hold
    · exact hpc
    · exact hlive addr hold
  | ret => exact hlive addr (List.mem_of_mem_tail ha)
  | _ => exact hlive addr ha

theorem pendingRedraws_execute_le (h : m.refusal? ins = none) (hp : m.pendingRedraws ≤ 5)
    (supply : Supply) : (m.execute supply ins).state.pendingRedraws ≤ 5 := by
  cases hd : ins.draws with
  | false => rwa [(picture_execute_of_not_draws h hd supply).2.1]
  | true =>
    rw [(pendingRedraws_execute_of_draws h hd supply).1, pendingRedraws_requestRedraw]
    split <;> omega

theorem inBounds_execute (hm : m.InBounds) (hpc : m.pc.toNat ≤ 0xFFE) (hw : ins.WellFormed)
    (h : m.refusal? ins = none) (supply : Supply) : (m.execute supply ins).state.InBounds where
  pc_le := by
    rw [pc_execute h]
    exact nextPc_le hpc hm.live_le hw supply
  live_le := by
    rw [live_execute h]
    exact nextLive_le hpc hm.live_le ins
  pending_le := pendingRedraws_execute_le h hm.pending_le supply

theorem inBounds_step (hm : m.InBounds) (supply : Supply) : (m.step supply).state.InBounds := by
  cases hr : m.stepRefusal? with
  | some fault =>
    obtain ⟨log, -, hs⟩ := step_of_refusal hr
    rwa [hs supply]
  | none =>
    obtain ⟨word, ins, hw, hd, ha, hs⟩ := step_of_accepted hr
    have he := inBounds_execute hm (pc_of_fetch hw) (Instruction.wellFormed_of_decode hd) ha supply
    rw [hs supply]
    exact ⟨he.pc_le, he.live_le, he.pending_le⟩

theorem inBounds_act (supply : Supply) (m : Machine) (op : Operation) (hm : m.InBounds) :
    (m.act supply op).InBounds := by
  cases op with
  | step => exact inBounds_step hm supply
  | press code => exact ⟨hm.pc_le, hm.live_le, hm.pending_le⟩
  | releaseKeys => exact ⟨hm.pc_le, hm.live_le, hm.pending_le⟩
  | takeRedraw =>
    rw [act, takeRedraw_eq]
    exact ⟨hm.pc_le, hm.live_le, Nat.le_trans (Nat.sub_le _ _) hm.pending_le⟩
  | install program =>
    obtain ⟨memory, hi⟩ := install_state m program
    rw [act, hi]
    exact ⟨hm.pc_le, hm.live_le, hm.pending_le⟩

/-- Whatever is done to a machine, it stays within its bounds. -/
theorem inBounds_run (supply : Supply) (ops : List Operation) :
    (initial.run supply ops).InBounds :=
  run_induction (inBounds_act supply) initial ops inBounds_initial

end Chip8.Machine
