import Chip8.Proofs.Machine.Successes

/-!
# What a run asks its supply for

A program asks for a random byte with one instruction and for a key with another, and each of them
asks once; nothing else that is done to a machine asks for anything. So the requests of a run are
answered in turn, each by the next answer, and answers that a run has not come to make no difference
to it. Where the answers come from is not said here.
-/
namespace Chip8

/-- The two things that a supply is asked for. -/
inductive Request where
  | byte | key
  deriving DecidableEq, Repr

/-- Whether the instruction asks for it. -/
def Instruction.asksFor : Request → Instruction → Bool
  | .byte, .random _ _ => true
  | .key, .awaitKey _ => true
  | _, _ => false

namespace Machine

/-- How often the machine has asked for it. -/
def asked (m : Machine) : Request → Nat
  | .byte => m.bytesAsked
  | .key => m.keysAsked

/-- Whether the next step asks for it. -/
def asksFor (m : Machine) (request : Request) : Bool :=
  m.current?.any (Instruction.asksFor request)

/-- How many of the steps that start from the given machines ask for it. -/
def countAsking (request : Request) (machines : List Machine) : Nat :=
  machines.countP (asksFor · request)

variable {supply other : Supply} {m : Machine} {ins : Instruction} {request : Request}

theorem asksFor_of_current (h : m.current? = some ins) :
    m.asksFor request = ins.asksFor request := by
  rw [asksFor, h, Option.any_some]

theorem asked_countDown (m : Machine) (request : Request) :
    m.countDown.asked request = m.asked request := by
  cases request <;> rfl

theorem asked_next (supply : Supply) (m : Machine) (ins : Instruction) (request : Request) :
    (m.next supply ins).asked request =
      m.asked request + if ins.asksFor request then 1 else 0 := by
  cases request <;> cases ins <;> rfl

/-- A successful step asks once if its instruction asks. -/
theorem asked_step_of_ok (h : (m.step supply).result = .ok ()) (request : Request) :
    (m.step supply).state.asked request =
      m.asked request + if m.asksFor request then 1 else 0 := by
  obtain ⟨ins, hi, hs⟩ := step_state_of_ok h
  rw [hs, asked_countDown, asked_next, asksFor_of_current hi]

theorem step_ok_of_asksFor (h : m.asksFor request = true) : (m.step supply).result = .ok () := by
  obtain ⟨ins, hi, hasks⟩ := (Option.any_eq_true _ _).mp h
  apply step_ok_of_accepted hi
  -- neither of the two instructions that ask can be refused
  cases request <;> cases ins <;> first | rfl | contradiction

theorem asked_step (supply : Supply) (m : Machine) (request : Request) :
    (m.step supply).state.asked request =
      m.asked request + if m.asksFor request then 1 else 0 := by
  cases h : (m.step supply).result with
  | ok => exact asked_step_of_ok h request
  | error fault =>
    rw [step_state_of_error h, if_neg]
    · rfl
    · intro hasks
      rw [step_ok_of_asksFor hasks] at h
      contradiction

/-- An instruction looks at the answer to its own request and at no other. -/
theorem next_congr (hbyte : ins.asksFor .byte = true →
      other.randomByte m.bytesAsked = supply.randomByte m.bytesAsked)
    (hkey : ins.asksFor .key = true →
      other.awaitedKey m.keysAsked = supply.awaitedKey m.keysAsked) :
    m.next other ins = m.next supply ins := by
  cases ins with
  | random x kk =>
    have hsame := hbyte rfl
    rw [next, next, nextRegisters, nextRegisters, hsame]
    rfl
  | awaitKey x =>
    have hsame := hkey rfl
    rw [next, next, nextRegisters, nextRegisters, nextPc_awaitKey, nextPc_awaitKey, hsame]
  | _ => rfl

/-- A step that succeeds with one supply comes out the same with another that gives the same
answers to what the step asks for. -/
theorem step_congr (h : (m.step supply).result = .ok ())
    (hbyte : m.asksFor .byte = true →
      other.randomByte m.bytesAsked = supply.randomByte m.bytesAsked)
    (hkey : m.asksFor .key = true →
      other.awaitedKey m.keysAsked = supply.awaitedKey m.keysAsked) :
    (m.step other).state = (m.step supply).state := by
  obtain ⟨ins, hi, hs⟩ := step_state_of_ok h
  have hother : (m.step other).result = .ok () :=
    step_ok_of_accepted hi (accepted_of_step_ok h hi)
  obtain ⟨ins', hi', hs'⟩ := step_state_of_ok hother
  obtain rfl : ins' = ins := Option.some.inj (hi'.symm.trans hi)
  rw [asksFor_of_current hi] at hbyte hkey
  rw [hs, hs', next_congr hbyte hkey]

theorem reg_step_of_random {x : Register} {kk : UInt8} (h : (m.step supply).result = .ok ())
    (hi : m.current? = some (.random x kk)) :
    (m.step supply).state.reg x = kk + supply.randomByte m.bytesAsked := by
  obtain ⟨ins, hi', hs⟩ := step_state_of_ok h
  obtain rfl : .random x kk = ins := Option.some.inj (hi.symm.trans hi')
  rw [hs]
  exact reg_setReg_self m x _

/-- The machine that has asked for a key and gone on with the answer, if there was one. -/
theorem step_of_awaitKey {x : Register} (h : (m.step supply).result = .ok ())
    (hi : m.current? = some (.awaitKey x)) :
    (m.step supply).state =
      let counted := { m with keysAsked := m.keysAsked + 1 }
      (match supply.awaitedKey m.keysAsked m.keypad with
        | none => counted
        | some key => (counted.setReg x key).advance).countDown := by
  rcases step_cases supply m with ⟨fault, log, -, hs⟩ | ⟨word, ins, -, hi', -, hs⟩
  · rw [hs] at h
    contradiction
  · obtain rfl : .awaitKey x = ins := Option.some.inj (hi.symm.trans hi')
    rw [hs]
    show (m.awaitKey supply x).state.countDown = _
    unfold awaitKey
    cases supply.awaitedKey m.keysAsked m.keypad <;> rfl

theorem countAsking_cons (request : Request) (m : Machine) (machines : List Machine) :
    countAsking request (m :: machines) =
      (if m.asksFor request then 1 else 0) + countAsking request machines := by
  rw [countAsking, List.countP_cons, Nat.add_comm]
  rfl

/-- A run has asked once for each instruction it carried out that asks. -/
theorem asked_run (supply : Supply) (m : Machine) (ops : List Operation) (request : Request) :
    (m.run supply ops).asked request =
      m.asked request + countAsking request (m.successes supply ops) := by
  induction ops generalizing m with
  | nil => rfl
  | cons op ops ih =>
    rw [run, ih]
    rcases act_cases supply m op with ⟨rfl, hok, hcount⟩ | ⟨⟨_, _, _, hact⟩, hcount⟩
    · rw [hcount, countAsking_cons, act, asked_step_of_ok hok, Nat.add_assoc]
    · rw [hcount, hact supply]
      cases request <;> rfl

/-- An operation asks if it is a step and its instruction asks, and otherwise it does not. -/
theorem asked_act (supply : Supply) (m : Machine) (op : Operation) (request : Request) :
    (m.act supply op).asked request =
      m.asked request + if op = .step ∧ m.asksFor request = true then 1 else 0 := by
  by_cases hop : op = .step
  · rw [hop, act, asked_step]
    simp
  · rcases act_cases supply m op with ⟨hstep, -, -⟩ | ⟨⟨_, _, _, hact⟩, -⟩
    · exact absurd hstep hop
    · rw [hact supply, if_neg fun h => hop h.1]
      cases request <;> rfl

theorem asked_installFrom (m : Machine) (reader : List Portion) (request : Request) :
    (m.installFrom reader).state.asked request = m.asked request := by
  unfold installFrom
  split
  · rfl
  · next program _ =>
    obtain ⟨memory, hinstall⟩ := m.install_state program
    rw [hinstall]
    cases request <;> rfl

/-- Two supplies that give the same answers to the next requests of a machine, as many for a byte
and as many for a key as given. -/
structure SuppliedAlike (supply other : Supply) (m : Machine) (bytes keys : Nat) : Prop where
  byte : ∀ i < bytes, other.randomByte (m.bytesAsked + i) = supply.randomByte (m.bytesAsked + i)
  key : ∀ i < keys, other.awaitedKey (m.keysAsked + i) = supply.awaitedKey (m.keysAsked + i)

theorem SuppliedAlike.behind_step {bytes keys : Nat}
    (h : SuppliedAlike supply other m ((if m.asksFor .byte then 1 else 0) + bytes)
      ((if m.asksFor .key then 1 else 0) + keys))
    (hok : (m.step supply).result = .ok ()) :
    SuppliedAlike supply other (m.step supply).state bytes keys := by
  have hbytes : (m.step supply).state.bytesAsked = _ := asked_step_of_ok hok .byte
  have hkeys : (m.step supply).state.keysAsked = _ := asked_step_of_ok hok .key
  constructor
  · intro i hi
    rw [hbytes, Nat.add_assoc]
    exact h.byte _ (Nat.add_lt_add_left hi _)
  · intro i hi
    rw [hkeys, Nat.add_assoc]
    exact h.key _ (Nat.add_lt_add_left hi _)

/-- Answers that a run does not come to make no difference to it. -/
theorem run_congr {ops : List Operation} (h : SuppliedAlike supply other m
      (countAsking .byte (m.successes supply ops)) (countAsking .key (m.successes supply ops))) :
    m.run other ops = m.run supply ops := by
  induction ops generalizing m with
  | nil => rfl
  | cons op ops ih =>
    rcases act_cases supply m op with ⟨rfl, hok, hcount⟩ | ⟨⟨_, _, _, hact⟩, hcount⟩
    · rw [hcount, countAsking_cons, countAsking_cons] at h
      have hstep : m.act other .step = m.act supply .step := by
        apply step_congr hok
        · intro hasks
          exact h.byte 0 (by rw [if_pos hasks]; omega)
        · intro hasks
          exact h.key 0 (by rw [if_pos hasks]; omega)
      rw [run, run, hstep]
      exact ih (h.behind_step hok)
    · rw [hcount] at h
      rw [run, run, hact other, ← hact supply]
      apply ih
      rw [hact supply] at h ⊢
      exact ⟨h.byte, h.key⟩

/-- What a run asks its supply for, and what it makes of the answers. -/
structure AsksInTurn (supply : Supply) (m : Machine) (ops : List Operation) : Prop where
  /-- Every instruction that was carried out and asks has asked once. -/
  asked_eq : ∀ request, (m.run supply ops).asked request =
    m.asked request + countAsking request (m.successes supply ops)
  /-- Nothing else asks, and no step that asks fails. -/
  asked_act : ∀ before op after, ops = before ++ op :: after → ∀ request,
    ((m.run supply before).act supply op).asked request = (m.run supply before).asked request +
      if op = .step ∧ (m.run supply before).asksFor request = true then 1 else 0
  asked_installFrom : ∀ reader request,
    ((m.run supply ops).installFrom reader).state.asked request = (m.run supply ops).asked request
  /-- The byte that answers is added to the one that the instruction gives. -/
  byte : ∀ earlier s later x kk, m.successes supply ops = earlier ++ s :: later →
    s.current? = some (.random x kk) →
    ((s.step supply).state.reg x).toNat = (kk.toNat +
      (supply.randomByte (m.bytesAsked + countAsking .byte earlier)).toNat) % 256
  /-- With a key the program goes on, and without one it waits where it is. -/
  key : ∀ earlier s later x, m.successes supply ops = earlier ++ s :: later →
    s.current? = some (.awaitKey x) →
    (s.step supply).state =
      let counted := { s with keysAsked := s.keysAsked + 1 }
      (match supply.awaitedKey (m.keysAsked + countAsking .key earlier) s.keypad with
        | none => counted
        | some key => (counted.setReg x key).advance).countDown
  /-- Other answers to requests that have not been made make no difference. -/
  alike : ∀ other bytes keys, SuppliedAlike supply other m bytes keys →
    countAsking .byte (m.successes supply ops) ≤ bytes →
    countAsking .key (m.successes supply ops) ≤ keys → m.run other ops = m.run supply ops

/-- Whatever is done to a machine, its requests are answered in turn. -/
theorem asks_in_turn (supply : Supply) (m : Machine) (ops : List Operation) :
    AsksInTurn supply m ops where
  asked_eq := asked_run supply m ops
  asked_act before op _ _ := asked_act supply (m.run supply before) op
  asked_installFrom := asked_installFrom (m.run supply ops)
  byte earlier s later x kk hsplit hi := by
    obtain ⟨before, after, -, rfl, rfl, hok, -⟩ := run_split hsplit
    have hasked : (m.run supply before).bytesAsked = _ := asked_run supply m before .byte
    rw [reg_step_of_random hok hi, hasked, UInt8.toNat_add]
    rfl
  key earlier s later x hsplit hi := by
    obtain ⟨before, after, -, rfl, rfl, hok, -⟩ := run_split hsplit
    have hasked : (m.run supply before).keysAsked = _ := asked_run supply m before .key
    rw [step_of_awaitKey hok hi, hasked]
    rfl
  alike other bytes keys h hbytes hkeys :=
    run_congr ⟨fun i hi => h.byte i (by omega), fun i hi => h.key i (by omega)⟩

/-- A random byte, a key that comes at the second try, and another random byte. The return behind
them fails and asks for nothing. -/
theorem asks_in_turn_second_byte :
    let supply : Supply := ⟨Supply.cycle [5, 0x20], Supply.cycleKeys [none, some 7]⟩
    let m := initial.run supply [.install [0xC0, 0x0F, 0xF1, 0x0A, 0xC2, 0xF0, 0x00, 0xEE]]
    let before := [.step, .step, .press 3, .step]
    let s := m.run supply before
    s.current? = some (.random 2 0xF0) ∧
      ((s.step supply).state.reg 2).toNat = (0xF0 + 0x20) % 256 ∧
      (m.run supply (before ++ [.step, .step, .releaseKeys])).bytesAsked = 2 := by
  intro supply m before s
  have hrun : s.current? = some (.random 2 0xF0) ∧ m.bytesAsked = 0 ∧
      countAsking .byte (m.successes supply before) = 1 ∧
      countAsking .byte (m.successes supply (before ++ [.step, .step, .releaseKeys])) = 2 := by
    decide +kernel
  obtain ⟨hcurrent, hnone, hearlier, hall⟩ := hrun
  have hok : (s.step supply).result = .ok () := step_ok_of_accepted hcurrent rfl
  have hlaw := asks_in_turn supply m (before ++ [.step, .step, .releaseKeys])
  have hbyte := hlaw.byte (m.successes supply before) s _ 2 0xF0
    (by rw [successes_append, successes_step_of_ok hok]) hcurrent
  have hasked : (m.run supply _).bytesAsked = _ := hlaw.asked_eq .byte
  rw [hnone, hearlier] at hbyte
  rw [hall] at hasked
  exact ⟨hcurrent, hbyte, hasked.trans (congrArg (· + 2) hnone)⟩

end Machine
end Chip8
