import Chip8.Display
import Chip8.Proofs.RunLoop.Operations

/-!
# Every signal is delivered once and in order

On a logical clock a round that comes to its wait takes the oldest signal, if there is one, and a
round that fails takes none. So what a history has let in is what its rounds have taken, followed by
what still waits. `Delivers` says what one round does with the signals. Clocks that let signals in by
themselves while they wait are not covered.
-/
namespace Chip8.RunLoop

variable {δ : Type}

section

variable {s : RunLoop δ LogicalClock}

theorem await_of_waiting {signal : Signal} {rest : List Signal}
    (h : s.inbound.waiting = signal :: rest) :
    s.await =
      wakeUp { s with inbound := { s.inbound with waiting := rest } } (.arrival signal) := by
  have hwait : Clock.wait s.clock s.inbound s.deadline = _ :=
    LogicalClock.wait_of_waiting s.clock s.deadline h
  rw [await, hwait]

theorem await_of_empty (h : s.inbound.waiting = []) :
    s.await = wakeUp { s with clock := s.clock.advanceTo s.deadline }
      (if s.inbound.connected || s.inbound.shared then .deadline else .deserted) := by
  have hwait : Clock.wait s.clock s.inbound s.deadline = _ :=
    LogicalClock.wait_of_empty s.clock s.deadline h
  rw [await, hwait]

end

variable [Display δ]

section

variable {supply : Supply} {r : RunLoop δ LogicalClock}

theorem inbound_prepare (supply : Supply) (r : RunLoop δ LogicalClock) :
    (r.prepare supply).state.inbound = r.inbound := by
  obtain ⟨display, hstate⟩ := prepare_state supply r
  rw [hstate]

theorem taken?_of_wait (h : (r.prepare supply).result = .ok ()) :
    r.taken? supply = r.inbound.waiting.head? := by
  rw [taken?_of_ok h, ← inbound_prepare supply r]
  exact LogicalClock.signal?_wait _ _ _

theorem inbound_round_of_ok (h : (r.prepare supply).result = .ok ()) :
    (r.round supply).state.inbound = { r.inbound with waiting := r.inbound.waiting.tail } := by
  rw [round_of_prepare_ok h, ← inbound_prepare supply r]
  exact (await_clock _).2.1.trans (LogicalClock.mailbox_wait _ _ _)

theorem inbound_round_of_error {fault : Fault} (h : (r.prepare supply).result = .error fault) :
    (r.round supply).state.inbound = r.inbound := by
  rw [round_of_prepare_error h, ← inbound_prepare supply r]

end

/-- What a round does with the signals: it takes the oldest one if it comes to its wait and none if
it fails, presses the key that the signal tells of, and asks to shut down for a quit signal alone. -/
structure Delivers (supply : Supply) (r : RunLoop δ LogicalClock) : Prop where
  waiting_eq : r.inbound.waiting =
    (r.taken? supply).toList ++ (r.round supply).state.inbound.waiting
  taken_of_wait : (r.prepare supply).result = .ok () → r.taken? supply = r.inbound.waiting.head?
  taken_of_fault : ∀ fault, (r.round supply).result = .error fault → r.taken? supply = none
  shutDown_iff : (r.round supply).result = .ok .shutDown ↔ r.taken? supply = some .quit
  presses_eq : (r.operations supply).filterMap Operation.pressed? =
    ((r.taken? supply).bind Signal.code?).toList
  machine_eq : (r.round supply).state.machine = r.machine.run supply (r.operations supply)

theorem pressed_operations {κ : Type} [Clock κ] (supply : Supply) (r : RunLoop δ κ) :
    (r.operations supply).filterMap Operation.pressed? =
      ((r.taken? supply).bind Signal.code?).toList := by
  have hduties : (r.duties (Clock.now r.clock)).filterMap Operation.pressed? = [] := by
    rw [duties]
    cases r.releasing.isDue (Clock.now r.clock) <;> cases r.stepping.isDue (Clock.now r.clock) <;>
      rfl
  have hserved : (List.replicate (r.served supply) Operation.takeRedraw).filterMap
      Operation.pressed? = [] := List.filterMap_replicate_of_none rfl
  rw [operations, List.filterMap_append, List.filterMap_append, hduties, hserved]
  cases r.taken? supply with
  | none => rfl
  | some signal => cases signal <;> rfl

theorem delivers (supply : Supply) (r : RunLoop δ LogicalClock) : r.Delivers supply := by
  cases hresult : (r.prepare supply).result with
  | error fault =>
    have htaken := taken?_of_error hresult
    constructor
    · rw [htaken, inbound_round_of_error hresult]
      rfl
    · intro hok
      rw [hresult] at hok
      contradiction
    · intro _ _
      exact htaken
    · exact shutDown_iff_taken supply r
    · exact pressed_operations supply r
    · exact machine_round supply r
  | ok answer =>
    have htaken := taken?_of_wait hresult
    constructor
    · rw [htaken, inbound_round_of_ok hresult]
      cases r.inbound.waiting <;> rfl
    · intro _
      exact htaken
    · intro fault hfault
      rw [round_result_of_prepare_ok hresult] at hfault
      contradiction
    · exact shutDown_iff_taken supply r
    · exact pressed_operations supply r
    · exact machine_round supply r

section

variable {κ : Type} [Clock κ]

/-- The signal that an event puts into the mailbox, if it does. -/
def admitted (s : RunLoop δ κ) : Event → List Signal
  | .offer signal => if s.inbound.accepts then [signal] else []
  | _ => []

/-- The signals that were let in during a history, the first one first. -/
def accepted (supply : Supply) : RunLoop δ κ → List Event → List Signal
  | _, [] => []
  | s, event :: events => s.admitted event ++ accepted supply (s.act supply event) events

/-- The signals that the rounds of a history took, the first one first. -/
def consumed (supply : Supply) (s : RunLoop δ κ) (events : List Event) : List Signal :=
  (s.rounds supply events).filterMap (taken? supply)

end

variable (supply : Supply)

theorem consumed_round (s : RunLoop δ LogicalClock) (events : List Event) :
    s.consumed supply (.round :: events) =
      (s.taken? supply).toList ++ (s.act supply .round).consumed supply events := by
  rw [consumed, rounds, List.filterMap_cons, consumed]
  cases s.taken? supply <;> rfl

/-- What waited before a history and what it let in is what it took and what waits after it. -/
theorem waiting_append_accepted (s : RunLoop δ LogicalClock) (events : List Event) :
    s.inbound.waiting ++ s.accepted supply events =
      s.consumed supply events ++ (s.after supply events).inbound.waiting := by
  induction events generalizing s with
  | nil => exact List.append_nil _
  | cons event events ih =>
    have hrest := ih (s.act supply event)
    rw [accepted, after]
    cases event with
    | offer signal =>
      have hoffer : (s.act supply (.offer signal)).inbound.waiting =
          s.inbound.waiting ++ s.admitted (.offer signal) := by
        show (s.inbound.offer signal).waiting = _
        rw [Mailbox.waiting_offer, admitted]
        split
        · rfl
        · exact (List.append_nil _).symm
      rw [hoffer, List.append_assoc] at hrest
      exact hrest
    | hangUp => exact hrest
    | round =>
      rw [consumed_round, (delivers supply s).waiting_eq, List.append_assoc, List.append_assoc]
      exact congrArg _ hrest

theorem inbound_round (r : RunLoop δ LogicalClock) :
    (r.round supply).state.inbound =
      { r.inbound with waiting := (r.round supply).state.inbound.waiting } := by
  cases hresult : (r.prepare supply).result with
  | error fault => rw [inbound_round_of_error hresult]
  | ok answer => rw [inbound_round_of_ok hresult]

theorem connected_after (s : RunLoop δ LogicalClock) (events : List Event) :
    (s.after supply events).inbound.connected = true ↔
      s.inbound.connected = true ∧ .hangUp ∉ events := by
  induction events generalizing s with
  | nil => simp [after]
  | cons event events ih =>
    rw [after, ih, List.mem_cons]
    cases event with
    | offer signal =>
      have hoffer : (s.act supply (.offer signal)).inbound.connected = s.inbound.connected := by
        show (s.inbound.offer signal).connected = _
        rw [Mailbox.offer_eq]
      rw [hoffer]
      simp
    | hangUp => simp [act, Mailbox.hangUp]
    | round =>
      have hround : (s.act supply .round).inbound.connected = s.inbound.connected := by
        rw [act, inbound_round]
      rw [hround]
      simp

/-- The mailbox has the usual size, and no more waits in it than that. -/
structure Fits (s : RunLoop δ LogicalClock) : Prop where
  capacity_eq : s.inbound.capacity = some inputCapacity
  waiting_le : s.inbound.waiting.length ≤ inputCapacity

variable {supply} {s : RunLoop δ LogicalClock}

omit [Display δ] in
theorem Fits.hasRoom_iff (h : s.Fits) :
    s.inbound.hasRoom = true ↔ s.inbound.waiting.length < inputCapacity := by
  rw [Mailbox.hasRoom, h.capacity_eq, decide_eq_true_iff]

theorem fits_act (s : RunLoop δ LogicalClock) (event : Event) (h : s.Fits) :
    (s.act supply event).Fits := by
  cases event with
  | offer signal =>
    constructor
    · show (s.inbound.offer signal).capacity = _
      rw [Mailbox.offer_eq]
      exact h.capacity_eq
    · show (s.inbound.offer signal).waiting.length ≤ _
      rw [Mailbox.waiting_offer]
      split
      · next haccepts =>
        have hroom := h.hasRoom_iff.mp (Bool.and_eq_true_iff.mp haccepts).2
        rw [List.length_append]
        exact hroom
      · exact h.waiting_le
  | hangUp => exact ⟨h.capacity_eq, h.waiting_le⟩
  | round =>
    constructor
    · rw [act, inbound_round]
      exact h.capacity_eq
    · have hwaiting := congrArg List.length (delivers supply s).waiting_eq
      have hle := h.waiting_le
      rw [List.length_append] at hwaiting
      rw [act]
      omega

/-- A run loop on a logical clock with a mailbox for ten signals, and any order of offers, hanging
up and rounds: the signals that were let in are those that rounds have taken, followed by those that
wait; an offer is refused just when ten signals wait or the producer has hung up; and every round
delivers as `Delivers` says. -/
theorem signals_delivered_in_order {δ : Type} [Display δ] (supply : Supply) (machine : Machine)
    (display : δ) (time : Nat) (rates : Rates) (events : List Event) :
    let begun := start machine display (Mailbox.new (some inputCapacity) false)
      (LogicalClock.mk time) rates
    let s := begun.after supply events
    begun.accepted supply events = begun.consumed supply events ++ s.inbound.waiting ∧
      (s.inbound.accepts = false ↔
        s.inbound.waiting.length = inputCapacity ∨ .hangUp ∈ events) ∧
      ∀ r ∈ begun.rounds supply events, r.Delivers supply := by
  intro begun s
  have hfits : s.Fits := after_induction fits_act begun events ⟨rfl, Nat.zero_le _⟩
  have hconnected : s.inbound.connected = true ↔ .hangUp ∉ events := by
    rw [connected_after]
    exact and_iff_right rfl
  refine ⟨waiting_append_accepted supply begun events, ?_, fun r _ => delivers supply r⟩
  have hle := hfits.waiting_le
  rw [← Bool.not_eq_true, Mailbox.accepts, Bool.and_eq_true_iff, hconnected, hfits.hasRoom_iff]
  constructor
  · intro h
    by_cases hup : .hangUp ∈ events
    · exact .inr hup
    · left
      have hfull : ¬ s.inbound.waiting.length < inputCapacity := fun hlt => h ⟨hup, hlt⟩
      omega
  · rintro (hfull | hup) ⟨hnot, hlt⟩
    · omega
    · exact hnot hup

/-- A key that waits when the producer hangs up is still delivered, and a quit offered after that
is not let in. -/
theorem signals_delivered_in_order_hung_up :
    let supply : Supply := ⟨fun _ => 0, Supply.heldKey⟩
    let begun : RunLoop Recorder LogicalClock :=
      start (Machine.initial.install [0x12, 0x00]).state Recorder.new
        (Mailbox.new (some inputCapacity) false) ⟨0⟩ ⟨100, 50⟩
    let events := [.offer (.key 0xB), .hangUp, .offer .quit, .round, .round]
    let s := begun.after supply events
    begun.accepted supply events = [.key 0xB] ∧
      [.key 0xB] = begun.consumed supply events ++ s.inbound.waiting ∧
      s.inbound.accepts = false ∧
      ∃ r ∈ begun.rounds supply events, r.taken? supply = some (.key 0xB) ∧ r.Delivers supply := by
  intro supply begun events s
  have haccepted : begun.accepted supply events = [.key 0xB] := by decide +kernel
  have htaken : (begun.after supply [.offer (.key 0xB), .hangUp, .offer .quit]).taken? supply =
      some (.key 0xB) := by decide +kernel
  subst s begun
  obtain ⟨horder, hrefused, hdelivers⟩ := signals_delivered_in_order supply
    (Machine.initial.install [0x12, 0x00]).state Recorder.new 0 ⟨100, 50⟩ events
  exact ⟨haccepted, haccepted.symm.trans horder, hrefused.mpr (.inr (by decide)), _,
    List.mem_cons_self, htaken, hdelivers _ List.mem_cons_self⟩

end Chip8.RunLoop
