import Chip8.Proofs.Machine.Bounds

/-!
# Calls nest

The live return addresses behave as a list of at most fifteen: a call puts its own address in front,
a return takes the first one off, and nothing else touches them. So whatever runs between a call
and the return that ends it, the machine resumes behind the call with the list it had there. Whether
a call is ever returned from is not said.
-/
namespace Chip8

theorem CallStack.getElem?_downFrom (slots : Vector Word 16) {top : Nat} (htop : top < 16)
    (k : Nat) :
    (CallStack.downFrom slots top)[k]? = if k < top then slots[top - k]? else none := by
  induction top generalizing k with
  | zero => rfl
  | succ top ih =>
    cases k with
    | zero =>
      have hread : slots[top + 1]? = some slots[top + 1] := Vector.getElem?_eq_getElem htop
      rw [CallStack.downFrom, List.getElem?_cons_zero, if_pos (Nat.succ_pos top), Nat.sub_zero,
        hread]
      rfl
    | succ k =>
      rw [CallStack.downFrom, List.getElem?_cons_succ, ih (by omega) k]
      simp only [Nat.add_lt_add_iff_right, Nat.add_sub_add_right]

namespace Machine

/-- Whatever instruction comes next, the slots and the depth are a list of return addresses. -/
structure ListsCalls (supply : Supply) (m : Machine) : Prop where
  /-- The list is read off the slots from the depth down to 1. -/
  contents : ∀ k : Nat, m.calls.live[k]? =
    if k < m.calls.depth.val then m.calls.slots[m.calls.depth.val - k]? else none
  call_result : ∀ addr, (m.execute supply (.call addr)).result =
    if m.calls.live.length = 15 then .error (.stackOverflow m.pc) else .ok ()
  call_state : ∀ addr, m.calls.live.length ≠ 15 →
    (m.execute supply (.call addr)).state.calls.live = m.pc :: m.calls.live ∧
      (m.execute supply (.call addr)).state.pc = addr
  ret_result : (m.execute supply .ret).result =
    if m.calls.live = [] then .error (.stackUnderflow m.pc) else .ok ()
  ret_state : ∀ head rest, m.calls.live = head :: rest →
    (m.execute supply .ret).state.calls.live = rest ∧
      (m.execute supply .ret).state.pc.toNat = head.toNat + 2
  other : ∀ ins, ins ≠ .ret → (∀ addr, ins ≠ .call addr) →
    (m.execute supply ins).state.calls.live = m.calls.live

variable {supply : Supply} {m : Machine}

theorem listsCalls_of_inBounds (hm : m.InBounds) : m.ListsCalls supply where
  contents := CallStack.getElem?_downFrom m.calls.slots m.calls.depth.isLt
  call_result := by
    intro addr
    by_cases h : m.calls.live.length = 15
    · have hr : m.refusal? (.call addr) = some (.stackOverflow m.pc) := if_pos h
      rw [if_pos h, execute_of_refusal hr]
      rfl
    · have hr : m.refusal? (.call addr) = none := if_neg h
      rw [if_neg h, execute_of_accepted hr supply]
  call_state := by
    intro addr h
    have hr : m.refusal? (.call addr) = none := if_neg h
    exact ⟨live_execute hr supply, pc_execute hr supply⟩
  ret_result := by
    by_cases h : m.calls.live = []
    · have hr : m.refusal? .ret = some (.stackUnderflow m.pc) := if_pos h
      rw [if_pos h, execute_of_refusal hr]
      rfl
    · have hr : m.refusal? .ret = none := if_neg h
      rw [if_neg h, execute_of_accepted hr supply]
  ret_state := by
    intro head rest h
    have hr : m.refusal? .ret = none := by
      rw [refusal?, h]
      rfl
    have hhead : head.toNat ≤ 0xFFE := hm.live_le head (by rw [h]; exact List.mem_cons_self)
    constructor
    · rw [live_execute hr supply, nextLive_ret, h, List.tail_cons]
    · rw [pc_execute hr supply, nextPc_ret, h, List.headD_cons, toNat_add_two hhead]
  other := by
    intro ins hret hcall
    cases hr : m.refusal? ins with
    | some fault => rw [execute_of_refusal hr]; rfl
    | none => rw [live_execute hr supply, nextLive_of_other hret hcall]

/-- Only a step touches the list of calls, and what it does there is said by the current
instruction. -/
theorem live_act (supply : Supply) (m : Machine) (op : Operation) :
    (m.act supply op).calls.live = m.calls.live ∨
      ∃ ins, m.current? = some ins ∧ (m.act supply op).calls.live = m.nextLive ins := by
  cases op with
  | step =>
    rcases step_cases supply m with ⟨fault, log, -, hs⟩ | ⟨word, ins, -, hi, hr, hs⟩
    · left
      rw [act, hs]
    · right
      refine ⟨ins, hi, ?_⟩
      rw [act, hs]
      exact live_execute hr supply
  | press code => exact .inl rfl
  | releaseKeys => exact .inl rfl
  | takeRedraw =>
    left
    rw [act, takeRedraw_eq]
  | install program =>
    obtain ⟨memory, hi⟩ := install_state m program
    left
    rw [act, hi]

/-- What lies below stays there, as long as the list is longer than that. -/
theorem suffix_nextLive {frames : List Word} (ins : Instruction) (hs : frames <:+ m.calls.live)
    (hlen : frames.length ≤ (m.nextLive ins).length) : frames <:+ m.nextLive ins := by
  cases ins with
  | call addr => exact hs.trans (List.suffix_cons m.pc m.calls.live)
  | ret =>
    rw [nextLive_ret] at hlen ⊢
    cases hl : m.calls.live with
    | nil => rwa [hl] at hs
    | cons head rest =>
      rw [hl, List.tail_cons] at hlen
      rw [hl] at hs
      rcases List.suffix_cons_iff.mp hs with rfl | hrest
      · rw [List.length_cons] at hlen
        omega
      · exact hrest
  | _ => exact hs

theorem suffix_act {frames : List Word} (op : Operation) (hs : frames <:+ m.calls.live)
    (hlen : frames.length ≤ (m.act supply op).calls.live.length) :
    frames <:+ (m.act supply op).calls.live := by
  rcases live_act supply m op with hsame | ⟨ins, -, hnext⟩
  · rwa [hsame]
  · rw [hnext] at hlen ⊢
    exact suffix_nextLive ins hs hlen

theorem suffix_run {frames : List Word} (ops : List Operation) (hs : frames <:+ m.calls.live)
    (hlen : ∀ k ≤ ops.length,
      frames.length ≤ (m.run supply (ops.take k)).calls.live.length) :
    frames <:+ (m.run supply ops).calls.live := by
  induction ops generalizing m with
  | nil => exact hs
  | cons op ops ih =>
    have hfirst : frames.length ≤ (m.act supply op).calls.live.length :=
      hlen 1 (Nat.succ_le_succ (Nat.zero_le _))
    exact ih (suffix_act op hs hfirst) fun k hk => hlen (k + 1) (Nat.succ_le_succ hk)

/-- A step that makes the list shorter is a return. -/
theorem ret_of_shorter (h : (m.step supply).state.calls.live.length < m.calls.live.length) :
    m.current? = some .ret ∧ (m.step supply).result = .ok () ∧
      (m.step supply).state.calls.live = m.calls.live.tail ∧
      (m.step supply).state.pc = m.calls.live.headD 0 + 2 := by
  rcases step_cases supply m with ⟨fault, log, -, hs⟩ | ⟨word, ins, -, hi, hr, hs⟩
  · rw [hs] at h
    exact absurd h (Nat.lt_irrefl _)
  · rw [hs] at h ⊢
    have hlive : (m.execute supply ins).state.countDown.calls.live = m.nextLive ins :=
      live_execute hr supply
    have hpc : (m.execute supply ins).state.countDown.pc = m.nextPc supply ins :=
      pc_execute hr supply
    rw [hlive] at h
    by_cases hret : ins = .ret
    · subst hret
      exact ⟨hi, rfl, hlive, hpc⟩
    · by_cases hcall : ∃ addr, ins = .call addr
      · obtain ⟨addr, rfl⟩ := hcall
        rw [nextLive_call, List.length_cons] at h
        omega
      · rw [nextLive_of_other hret fun addr he => hcall ⟨addr, he⟩] at h
        exact absurd h (Nat.lt_irrefl _)

/-- A step that makes the list longer, at a call, has carried it out. -/
theorem live_step_of_call {addr : Word} (hcall : m.current? = some (.call addr))
    (h : m.calls.live.length < (m.step supply).state.calls.live.length) :
    (m.step supply).state.calls.live = m.pc :: m.calls.live ∧ m.pc.toNat ≤ 0xFFE := by
  rcases step_cases supply m with ⟨fault, log, -, hs⟩ | ⟨word, ins, hw, hi, hr, hs⟩
  · rw [hs] at h
    exact absurd h (Nat.lt_irrefl _)
  · obtain rfl : ins = .call addr := Option.some.inj (hi.symm.trans hcall)
    rw [hs]
    exact ⟨live_execute hr supply, pc_of_fetch hw⟩

/-- In every machine that a run can reach, the call stack is a list of at most fifteen return
addresses. And when such a machine carries out a call, whatever is done while the depth stays above
that of the call, the step that brings it back is a return, goes on behind the call and leaves the
list of the call. -/
theorem calls_nest (supply : Supply) (before : List Operation) :
    let m := initial.run supply before
    m.ListsCalls supply ∧
      ∀ addr during,
        let last := (m.step supply).state.run supply during
        m.current? = some (.call addr) →
        (∀ k ≤ during.length, m.calls.depth <
          ((m.step supply).state.run supply (during.take k)).calls.depth) →
        (last.step supply).state.calls.depth = m.calls.depth →
        last.current? = some .ret ∧ (last.step supply).result = .ok () ∧
          (last.step supply).state.pc.toNat = m.pc.toNat + 2 ∧
          (last.step supply).state.calls.live = m.calls.live := by
  intro m
  refine ⟨listsCalls_of_inBounds (inBounds_run supply before), ?_⟩
  intro addr during last hcall habove hback
  have hlonger : ∀ k ≤ during.length, (m.pc :: m.calls.live).length ≤
      ((m.step supply).state.run supply (during.take k)).calls.live.length := by
    intro k hk
    rw [List.length_cons, CallStack.length_live, CallStack.length_live]
    exact habove k hk
  obtain ⟨hpushed, hpc⟩ := live_step_of_call hcall (hlonger 0 (Nat.zero_le _))
  have hpushed' : (m.pc :: m.calls.live) <:+ (m.step supply).state.calls.live :=
    ⟨[], hpushed.symm⟩
  have hsuffix : (m.pc :: m.calls.live) <:+ last.calls.live := suffix_run during hpushed' hlonger
  have hlen : (last.step supply).state.calls.live.length = m.calls.live.length := by
    rw [CallStack.length_live, CallStack.length_live, hback]
  have hshorter : (last.step supply).state.calls.live.length < last.calls.live.length := by
    rw [hlen]
    exact hsuffix.length_le
  obtain ⟨hret, hdone, htail, hresume⟩ := ret_of_shorter hshorter
  have hwhole : last.calls.live = m.pc :: m.calls.live := by
    have htailLen := congrArg List.length htail
    rw [hlen, List.length_tail] at htailLen
    have heq : (m.pc :: m.calls.live).length = last.calls.live.length := by
      rw [List.length_cons]
      omega
    exact (hsuffix.eq_of_length heq).symm
  refine ⟨hret, hdone, ?_, ?_⟩
  · rw [hresume, hwhole, List.headD_cons, toNat_add_two hpc]
  · rw [htail, hwhole, List.tail_cons]

/-- A call that makes another call before it returns. -/
theorem calls_nest_twice :
    let supply : Supply := ⟨fun _ => 0, Supply.heldKey⟩
    let m := initial.run supply
      [.install [0x22, 0x04, 0x12, 0x02, 0x22, 0x08, 0x00, 0xEE, 0x00, 0xEE]]
    let last := (m.step supply).state.run supply [.step, .step]
    last.current? = some .ret ∧ (last.step supply).state.pc.toNat = m.pc.toNat + 2 ∧
      (last.step supply).state.calls.live = m.calls.live := by
  have hrun :
      let supply : Supply := ⟨fun _ => 0, Supply.heldKey⟩
      let m := initial.run supply
        [.install [0x22, 0x04, 0x12, 0x02, 0x22, 0x08, 0x00, 0xEE, 0x00, 0xEE]]
      m.current? = some (.call 0x204) ∧
        (∀ k ≤ 2, m.calls.depth <
          ((m.step supply).state.run supply ([.step, .step].take k)).calls.depth) ∧
        (((m.step supply).state.run supply [.step, .step]).step supply).state.calls.depth =
          m.calls.depth := by
    intro supply m
    decide +kernel
  obtain ⟨hcall, habove, hback⟩ := hrun
  obtain ⟨hret, -, hpc, hlive⟩ := (calls_nest _ _).2 0x204 [.step, .step] hcall habove hback
  exact ⟨hret, hpc, hlive⟩

end Machine
end Chip8
