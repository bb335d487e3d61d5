import Chip8.Proofs.Machine.Successes

/-!
# Timers count steps

Only a step that succeeds moves a timer: it sets it, if that is its instruction, and then takes it
one towards zero. So what a timer shows is what it was last set to, less the number of successful
steps since and the one that set it. `successes` finds these steps in a run; whatever else is done
in between does not count. How long a step takes is not said here.
-/
namespace Chip8.Machine

variable {supply : Supply} {m : Machine} {t : Timer}

/-- The register that the next step sets the timer from, if that is what it does. -/
def setsFrom? (m : Machine) (t : Timer) : Option Register :=
  m.current?.bind (Instruction.setsTimer? t)

theorem timer_countDown (m : Machine) (t : Timer) :
    (m.countDown.timer t).toNat = (m.timer t).toNat - 1 := by
  have hbound := (m.timer t).toNat_lt
  cases t <;>
  · simp only [timer, countDown, UInt8.toNat_ofNat'] at hbound ⊢
    omega

theorem timer_next (supply : Supply) (m : Machine) (ins : Instruction) (t : Timer) :
    (m.next supply ins).timer t = m.nextTimer t ins := by
  cases t <;> rfl

/-- A step that succeeds counts down from what it sets the timer to, or from what it finds. -/
theorem timer_step_of_ok (h : (m.step supply).result = .ok ()) (t : Timer) :
    ((m.step supply).state.timer t).toNat =
      ((m.setsFrom? t).elim (m.timer t) m.reg).toNat - 1 := by
  obtain ⟨ins, hi, hs⟩ := step_state_of_ok h
  rw [hs, timer_countDown, timer_next, nextTimer, setsFrom?, hi, Option.bind_some]
  cases ins.setsTimer? t <;> rfl

theorem reg_step_of_readDelay {y : Register} (h : (m.step supply).result = .ok ())
    (hread : m.current? = some (.readDelay y)) : (m.step supply).state.reg y = m.delay := by
  obtain ⟨ins, hi, hs⟩ := step_state_of_ok h
  obtain rfl : .readDelay y = ins := Option.some.inj (hread.symm.trans hi)
  rw [hs]
  exact reg_setReg_self m y m.delay

/-- While a timer is not set, every successful step takes it one towards zero. -/
theorem timer_run_of_unset (ops : List Operation)
    (h : ∀ s ∈ m.successes supply ops, s.setsFrom? t = none) :
    ((m.run supply ops).timer t).toNat =
      (m.timer t).toNat - (m.successes supply ops).length := by
  induction ops generalizing m with
  | nil => rfl
  | cons op ops ih =>
    rcases act_cases supply m op with ⟨rfl, hok, hcount⟩ | ⟨⟨_, _, _, hact⟩, hcount⟩
    · rw [hcount] at h ⊢
      have hset : m.setsFrom? t = none := h m List.mem_cons_self
      have hrest := ih fun s hs => h s (List.mem_cons_of_mem m hs)
      rw [run, hrest, act, timer_step_of_ok hok, hset, Option.elim_none, List.length_cons]
      omega
    · rw [hcount] at h ⊢
      rw [run, ih h, hact supply]
      cases t <;> rfl

theorem timer_run_of_set {ops : List Operation} {earlier later : List Machine} {s : Machine}
    {x : Register} (hsplit : m.successes supply ops = earlier ++ s :: later)
    (hset : s.setsFrom? t = some x) (hlast : ∀ r ∈ later, r.setsFrom? t = none) :
    ((m.run supply ops).timer t).toNat = (s.reg x).toNat - (later.length + 1) := by
  obtain ⟨before, after, rfl, rfl, -, hok, rfl⟩ := run_split hsplit
  rw [run_append, run, timer_run_of_unset after hlast, act, timer_step_of_ok hok, hset,
    Option.elim_some]
  omega

/-- What the timers show along a run, counted in the successful steps among its operations. -/
structure TimersCountDown (supply : Supply) (m : Machine) (ops : List Operation) : Prop where
  unset : ∀ t, (∀ s ∈ m.successes supply ops, s.setsFrom? t = none) →
    ((m.run supply ops).timer t).toNat = (m.timer t).toNat - (m.successes supply ops).length
  /-- The step that sets the timer is the first to count it down. -/
  set : ∀ t earlier s later x, m.successes supply ops = earlier ++ s :: later →
    s.setsFrom? t = some x → (∀ r ∈ later, r.setsFrom? t = none) →
    ((m.run supply ops).timer t).toNat = (s.reg x).toNat -
      ((m.successes supply ops).length - (earlier.length + 1) + 1)
  /-- Reading comes before the step counts down. -/
  read : ∀ earlier s between r later x y,
    m.successes supply ops = earlier ++ s :: (between ++ r :: later) →
    s.current? = some (.setDelay x) → (∀ q ∈ between, q.setsFrom? .delay = none) →
    r.current? = some (.readDelay y) →
    ((r.step supply).state.reg y).toNat = (s.reg x).toNat - (between.length + 1)
  /-- A step that waits for a key succeeds, so it counts. -/
  waiting : ∀ before after x, ops = before ++ .step :: after →
    (m.run supply before).current? = some (.awaitKey x) →
    m.successes supply ops = m.successes supply before ++ m.run supply before ::
      ((m.run supply before).act supply .step).successes supply after

theorem timers_count_down (supply : Supply) (m : Machine) (ops : List Operation) :
    TimersCountDown supply m ops where
  unset _ h := timer_run_of_unset ops h
  set t earlier s later x hsplit hset hlast := by
    rw [timer_run_of_set hsplit hset hlast, hsplit, List.length_append, List.length_cons]
    omega
  read earlier s between r later x y hsplit hset hbetween hread := by
    have hreads : m.successes supply ops = (earlier ++ s :: between) ++ r :: later := by
      rw [hsplit, List.append_assoc, List.cons_append]
    obtain ⟨before, after, -, rfl, hsets, hok, -⟩ := run_split hreads
    have hset : s.setsFrom? .delay = some x := by
      rw [setsFrom?, hset]
      rfl
    rw [reg_step_of_readDelay hok hread]
    exact timer_run_of_set hsets hset hbetween
  waiting before after x hops hwaits := by
    rw [hops, successes_append, successes_step_of_ok (step_ok_of_accepted hwaits rfl)]

/-- The delay timer is set to 9; five steps succeed, two of them while waiting for a key. -/
theorem timers_count_down_waiting :
    let supply : Supply := ⟨fun _ => 0, Supply.heldKey⟩
    let m := initial.run supply
      [.install [0x60, 0x09, 0xF0, 0x15, 0xF1, 0x0A, 0xF2, 0x07], .step]
    let ops := [.step, .step, .step, .press 3, .step, .takeRedraw, .step, .releaseKeys, .step]
    m.current? = some (.setDelay 0) ∧ (m.successes supply ops).length = 5 ∧
      (m.run supply ops).delay.toNat = 9 - 5 := by
  intro supply m ops
  have hrun : m.current? = some (.setDelay 0) ∧ (m.reg 0).toNat = 9 ∧
      (m.successes supply ops).length = 5 ∧
      ∀ r ∈ (m.act supply .step).successes supply ops.tail, r.setsFrom? .delay = none := by
    decide +kernel
  obtain ⟨hset, hreg, hlength, hlast⟩ := hrun
  have hok : (m.step supply).result = .ok () := step_ok_of_accepted hset rfl
  have hlaw := (timers_count_down supply m ops).set .delay [] m _ 0
    (successes_step_of_ok hok ops.tail) (by rw [setsFrom?, hset]; rfl) hlast
  rw [hlength, hreg] at hlaw
  exact ⟨hset, hlength, hlaw⟩

end Chip8.Machine
