import Chip8.Display
import Chip8.Proofs.RunLoop.Course

/-!
# Keys do not disturb a program that does not look at them

Two histories of one run loop on a logical clock differ in what arrives and in the rounds that take
it in. As long as no step looks at the keys, each round begins at an instant of the course, either
come there just now or settled there, and a history that passes a time has come to every instant up
to it. `Follows` says so of the rounds of a history. Displays that fail are not covered.
-/
namespace Chip8.RunLoop

variable {δ : Type} [Display δ] {reading : Display.Reading δ} {supply : Supply}
  {origin s : RunLoop δ LogicalClock} {n t : Nat}

/-- But for its keys, `s` has come to the instant `n` of the course, or has settled there. -/
def IsAt (supply : Supply) (s origin : RunLoop δ LogicalClock) (n : Nat) : Prop :=
  s.unkeyed = origin.course supply n ∨
    s.unkeyed = ((origin.course supply n).prepare supply).state

theorem IsAt.now_eq (h : s.IsAt supply origin n) :
    s.clock.now = (origin.course supply n).clock.now := by
  have hclock : s.unkeyed.clock = (origin.course supply n).clock := by
    rcases h with h | h
    · rw [h]
    · rw [h, clock_prepare]
  exact congrArg LogicalClock.now hclock

theorem IsAt.now_le (h : s.IsAt supply origin n) (hready : origin.Ready reading) {m : Nat}
    (hle : n ≤ m) (hm : (origin.course supply m).clock.now ≤ t) : s.clock.now ≤ t := by
  rw [h.now_eq]
  exact Nat.le_trans (now_course_le hready supply hle) hm

/-- What is due at an instant is done once: rounds that begin there settle there. -/
theorem IsAt.state_prepare (h : s.IsAt supply origin n) (hready : origin.Ready reading) :
    (s.unkeyed.prepare supply).state = ((origin.course supply n).prepare supply).state := by
  rcases h with h | h
  · rw [h]
  · rw [h, (settled_course hready supply n).atRest.prepare_eq]
    rfl

/-- A round that begins at an instant ends settled there or come to the next one. -/
theorem IsAt.unkeyed_round (h : s.IsAt supply origin n) (hready : origin.Ready reading)
    (hkeys : s.readsKeys = false) :
    (s.round supply).state.unkeyed = ((origin.course supply n).prepare supply).state ∨
      (s.round supply).state.unkeyed = origin.course supply (n + 1) := by
  have hround := (round_unkeyed hkeys supply).1
  rw [h.state_prepare hready] at hround
  exact hround

/-- A round that begins at an instant leaves the machine, but for its keys, and the display as they
are when settled there. -/
theorem IsAt.picture_round (h : s.IsAt supply origin n) (hready : origin.Ready reading)
    (hkeys : s.readsKeys = false) :
    (s.round supply).state.machine.withKeys .released =
        ((origin.course supply n).prepare supply).state.machine ∧
      (s.round supply).state.display =
        ((origin.course supply n).prepare supply).state.display := by
  rcases h.unkeyed_round hready hkeys with hround | hround
  · have hdisplay := congrArg display hround
    exact ⟨congrArg machine hround, hdisplay⟩
  · have hdisplay := congrArg display hround
    exact ⟨congrArg machine hround, hdisplay⟩

/-- Only a round that has just come to an instant can fail there. -/
theorem IsAt.fault_iff (h : s.IsAt supply origin n) (hready : origin.Ready reading)
    (hkeys : s.readsKeys = false) (fault : Fault) :
    (s.round supply).result = .error fault ↔
      s.unkeyed = origin.course supply n ∧
        ((origin.course supply n).prepare supply).result = .error fault := by
  rw [(round_unkeyed hkeys supply).2]
  constructor
  · intro hfault
    rcases h with h | h
    · rw [h] at hfault
      exact ⟨h, hfault⟩
    · rw [h, (settled_course hready supply n).atRest.prepare_eq] at hfault
      contradiction
  · rintro ⟨hcome, hfault⟩
    rw [hcome]
    exact hfault

/-- At an instant whose step does not look at the keys, no round looks at them. -/
theorem IsAt.readsKeys_eq (h : s.IsAt supply origin n) (hready : origin.Ready reading)
    (hkeys : (origin.course supply n).readsKeys = false) : s.readsKeys = false := by
  rcases h with h | h
  · rw [← readsKeys_unkeyed, h]
    exact hkeys
  · have hnot := (settled_course hready supply n).atRest.not_due.1
    rw [← h] at hnot
    exact Bool.and_eq_false_iff.mpr (.inl hnot)

/-- No round that begins at an instant up to `t` looks at the keys. -/
def Quiet (supply : Supply) (origin : RunLoop δ LogicalClock) (t : Nat)
    (rounds : List (RunLoop δ LogicalClock)) : Prop :=
  ∀ r ∈ rounds, r.clock.now ≤ t → ∀ n, r.IsAt supply origin n → r.readsKeys = false

theorem isAt_rounds (hready : origin.Ready reading) (events : List Event)
    (hquiet : Quiet supply origin t (s.rounds supply events))
    (hs : s.clock.now ≤ t → ∃ n, s.IsAt supply origin n) :
    ∀ r ∈ s.rounds supply events, r.clock.now ≤ t → ∃ n, r.IsAt supply origin n := by
  induction events generalizing s with
  | nil => simp [rounds]
  | cons event events ih =>
    cases event with
    | offer signal => exact ih hquiet hs
    | hangUp => exact ih hquiet hs
    | round =>
      -- nothing is claimed of rounds past `t`, and time never goes back
      have hnext : (s.act supply .round).clock.now ≤ t →
          ∃ n, (s.act supply .round).IsAt supply origin n := by
        intro hle
        have hnow : s.clock.now ≤ t := Nat.le_trans (now_le_act supply s .round) hle
        obtain ⟨n, hn⟩ := hs hnow
        rcases hn.unkeyed_round hready (hquiet s List.mem_cons_self hnow n hn) with hround | hround
        · exact ⟨n, .inr hround⟩
        · exact ⟨n + 1, .inl hround⟩
      intro r hr
      rcases List.mem_cons.mp hr with rfl | hr
      · exact hs
      · exact ih (fun r hr => hquiet r (List.mem_cons_of_mem s hr)) hnext r hr

/-- A history that passes `t` comes to every instant ahead of it up to `t`. -/
theorem comes_rounds (hready : origin.Ready reading) (events : List Event)
    (hquiet : Quiet supply origin t (s.rounds supply events)) (hs : s.IsAt supply origin n)
    (hpast : t < (s.after supply events).clock.now) {m : Nat}
    (hahead : n < m ∨ n = m ∧ s.unkeyed = origin.course supply n)
    (hm : (origin.course supply m).clock.now ≤ t) :
    ∃ r ∈ s.rounds supply events, r.unkeyed = origin.course supply m := by
  induction events generalizing s n with
  | nil =>
    have hle := hs.now_le hready (by omega) hm
    exact absurd hpast (Nat.not_lt.mpr hle)
  | cons event events ih =>
    cases event with
    | offer signal => exact ih hquiet hs hpast hahead
    | hangUp => exact ih hquiet hs hpast hahead
    | round =>
      have hrest {k : Nat} (hk : (s.act supply .round).IsAt supply origin k)
          (hahead : k < m ∨ k = m ∧ (s.act supply .round).unkeyed = origin.course supply k) :
          ∃ r ∈ s.rounds supply (.round :: events), r.unkeyed = origin.course supply m := by
        obtain ⟨r, hr, hcome⟩ :=
          ih (fun r hr => hquiet r (List.mem_cons_of_mem s hr)) hk hpast hahead
        exact ⟨r, List.mem_cons_of_mem s hr, hcome⟩
      -- either the instant lies ahead of what this round leaves, or this is the round
      rcases hahead with hlt | ⟨rfl, hcome⟩
      · have hle := hs.now_le hready (Nat.le_of_lt hlt) hm
        have hkeys := hquiet s List.mem_cons_self hle n hs
        rcases hs.unkeyed_round hready hkeys with hround | hround
        · exact hrest (.inr hround) (.inl hlt)
        · rcases Nat.lt_or_eq_of_le hlt with hlt | heq
          · exact hrest (.inl hround) (.inl hlt)
          · exact hrest (.inl hround) (.inr ⟨heq, hround⟩)
      · exact ⟨s, List.mem_cons_self, hcome⟩

/-- The rounds of a history that has passed the time `t`. -/
structure Follows (supply : Supply) (origin : RunLoop δ LogicalClock) (t : Nat)
    (rounds : List (RunLoop δ LogicalClock)) : Prop where
  quiet : Quiet supply origin t rounds
  isAt : ∀ r ∈ rounds, r.clock.now ≤ t → ∃ n, r.IsAt supply origin n
  comes : ∀ n, (origin.course supply n).clock.now ≤ t →
    ∃ r ∈ rounds, r.unkeyed = origin.course supply n

theorem follows_rounds (hready : s.unkeyed.Ready reading) (events : List Event)
    (hquiet : Quiet supply s.unkeyed t (s.rounds supply events))
    (hpast : t < (s.after supply events).clock.now) :
    Follows supply s.unkeyed t (s.rounds supply events) := by
  have hs : s.IsAt supply s.unkeyed 0 := .inl rfl
  refine ⟨hquiet, isAt_rounds hready events hquiet fun _ => ⟨0, hs⟩, fun m hm => ?_⟩
  rcases Nat.eq_zero_or_pos m with rfl | hpos
  · exact comes_rounds hready events hquiet hs hpast (.inr ⟨rfl, rfl⟩) hm
  · exact comes_rounds hready events hquiet hs hpast (.inl hpos) hm

variable {mine theirs : List (RunLoop δ LogicalClock)}

/-- If one history that follows the course looks at no keys, none does. -/
theorem Follows.quiet_of_isAt (h : Follows supply origin t mine) (hready : origin.Ready reading)
    (theirs : List (RunLoop δ LogicalClock)) : Quiet supply origin t theirs := by
  intro r _ hle n hn
  apply hn.readsKeys_eq hready
  have hinstant : (origin.course supply n).clock.now ≤ t := by
    rw [← hn.now_eq]
    exact hle
  obtain ⟨u, hu, hcome⟩ := h.comes n hinstant
  have hat : u.IsAt supply origin n := .inl hcome
  rw [← hcome, readsKeys_unkeyed]
  exact h.quiet u hu (by rw [hat.now_eq]; exact hinstant) n hat

/-- Two lists of rounds that cannot be told apart up to the time `t`, but for their keys: they begin
at the same times, rounds that begin at one time leave the same machine and the same display, and
the same faults end rounds at the same times. -/
structure Alike (supply : Supply) (t : Nat) (mine theirs : List (RunLoop δ LogicalClock)) :
    Prop where
  times_iff : ∀ u ≤ t, (∃ r ∈ mine, r.clock.now = u) ↔ ∃ r ∈ theirs, r.clock.now = u
  picture_eq : ∀ r ∈ mine ++ theirs, ∀ r' ∈ mine ++ theirs, r.clock.now ≤ t →
    r.clock.now = r'.clock.now →
    (r.round supply).state.machine.withKeys .released =
        (r'.round supply).state.machine.withKeys .released ∧
      (r.round supply).state.display = (r'.round supply).state.display
  faults_iff : ∀ u ≤ t, ∀ fault,
    (∃ r ∈ mine, r.clock.now = u ∧ (r.round supply).result = .error fault) ↔
      ∃ r ∈ theirs, r.clock.now = u ∧ (r.round supply).result = .error fault

theorem Follows.exists_of_isAt (h : Follows supply origin t mine) (hs : s.IsAt supply origin n)
    (hle : s.clock.now ≤ t) :
    ∃ r ∈ mine, r.clock.now = s.clock.now ∧ r.unkeyed = origin.course supply n := by
  rw [hs.now_eq] at hle ⊢
  obtain ⟨r, hr, hcome⟩ := h.comes n hle
  have hat : r.IsAt supply origin n := .inl hcome
  exact ⟨r, hr, hat.now_eq, hcome⟩

/-- Whenever a round begins in a history that follows the course, one begins in every other, and
fails alike. -/
theorem Follows.meets (hmine : Follows supply origin t mine)
    (htheirs : Follows supply origin t theirs) (hready : origin.Ready reading)
    {r : RunLoop δ LogicalClock} (hr : r ∈ mine) (hle : r.clock.now ≤ t) :
    ∃ r' ∈ theirs, r'.clock.now = r.clock.now ∧
      ∀ fault, (r.round supply).result = .error fault → (r'.round supply).result = .error fault := by
  obtain ⟨n, hn⟩ := hmine.isAt r hr hle
  obtain ⟨r', hr', hnow, hcome⟩ := htheirs.exists_of_isAt hn hle
  have hat : r'.IsAt supply origin n := .inl hcome
  refine ⟨r', hr', hnow, fun fault hfault => ?_⟩
  have hkeys := hmine.quiet r hr hle n hn
  have hkeys' := htheirs.quiet r' hr' (by omega) n hat
  rw [hn.fault_iff hready hkeys] at hfault
  rw [hat.fault_iff hready hkeys']
  exact ⟨hcome, hfault.2⟩

theorem alike_of_follows (hmine : Follows supply origin t mine)
    (htheirs : Follows supply origin t theirs) (hready : origin.Ready reading) :
    Alike supply t mine theirs := by
  constructor
  · intro u hu
    constructor
    · rintro ⟨r, hr, rfl⟩
      obtain ⟨r', hr', hnow, -⟩ := hmine.meets htheirs hready hr hu
      exact ⟨r', hr', hnow⟩
    · rintro ⟨r, hr, rfl⟩
      obtain ⟨r', hr', hnow, -⟩ := htheirs.meets hmine hready hr hu
      exact ⟨r', hr', hnow⟩
  · have hpicture : ∀ r ∈ mine ++ theirs, r.clock.now ≤ t → ∃ n, r.IsAt supply origin n ∧
        r.readsKeys = false := by
      intro r hr hle
      rcases List.mem_append.mp hr with hr | hr
      · obtain ⟨n, hn⟩ := hmine.isAt r hr hle
        exact ⟨n, hn, hmine.quiet r hr hle n hn⟩
      · obtain ⟨n, hn⟩ := htheirs.isAt r hr hle
        exact ⟨n, hn, htheirs.quiet r hr hle n hn⟩
    intro r hr r' hr' hle hnow
    obtain ⟨n, hn, hkeys⟩ := hpicture r hr hle
    obtain ⟨n', hn', hkeys'⟩ := hpicture r' hr' (by omega)
    rw [hn.now_eq, hn'.now_eq] at hnow
    obtain rfl := now_course_inj hready supply hnow
    obtain ⟨hmachine, hdisplay⟩ := hn.picture_round hready hkeys
    obtain ⟨hmachine', hdisplay'⟩ := hn'.picture_round hready hkeys'
    exact ⟨hmachine.trans hmachine'.symm, hdisplay.trans hdisplay'.symm⟩
  · intro u hu fault
    constructor
    · rintro ⟨r, hr, rfl, hfault⟩
      obtain ⟨r', hr', hnow, hfaults⟩ := hmine.meets htheirs hready hr hu
      exact ⟨r', hr', hnow, hfaults fault hfault⟩
    · rintro ⟨r, hr, rfl, hfault⟩
      obtain ⟨r', hr', hnow, hfaults⟩ := htheirs.meets hmine hready hr hu
      exact ⟨r', hr', hnow, hfaults fault hfault⟩

theorem ready_start (machine : Machine) {display : δ} (hworks : reading.works display)
    (inbound : Mailbox Signal) (time : Nat) {rates : Rates}
    (hrates : rates.stepHz ≤ 1000000000 ∧ rates.resetHz ≤ 1000000000) :
    (start machine display inbound (LogicalClock.mk time) rates).unkeyed.Ready reading := by
  have hstepping := Metronome.period_ofRate_pos hrates.1 time
  refine ⟨hstepping, Metronome.period_ofRate_pos hrates.2 time, hworks, fun hdue => ?_⟩
  -- the first step is a full period away
  have hnext : time + (Metronome.ofRate rates.stepHz time).period ≤ time := of_decide_eq_true hdue
  omega

/-- Two histories of a run loop started on a logical clock, with periods of at least a nanosecond
and a display that works. Both have passed the time `t`, and in one of them no step up to `t` looks
at the keys. Then up to `t` they are alike but for the keys, whatever arrives in either. -/
theorem keys_do_not_disturb {δ : Type} [Display δ] (reading : Display.Reading δ) (supply : Supply)
    (machine : Machine) (display : δ) (inbound : Mailbox Signal) (time : Nat) (rates : Rates)
    (mine theirs : List Event) (t : Nat) (hworks : reading.works display)
    (hrates : rates.stepHz ≤ 1000000000 ∧ rates.resetHz ≤ 1000000000) :
    let begun := start machine display inbound (LogicalClock.mk time) rates
    t < (begun.after supply mine).clock.now → t < (begun.after supply theirs).clock.now →
      (∀ r ∈ begun.rounds supply mine, r.clock.now ≤ t → r.readsKeys = false) →
      Alike supply t (begun.rounds supply mine) (begun.rounds supply theirs) := by
  intro begun hmine htheirs hkeys
  have hready : begun.unkeyed.Ready reading := ready_start machine hworks inbound time hrates
  have hfollows := follows_rounds hready mine (fun r hr hle _ _ => hkeys r hr hle) hmine
  have hquiet := hfollows.quiet_of_isAt hready (begun.rounds supply theirs)
  exact alike_of_follows hfollows (follows_rounds hready theirs hquiet htheirs) hready

/-- A program that counts in V0, without keys and with two of them. -/
theorem keys_do_not_disturb_counting :
    let supply : Supply := ⟨fun _ => 0, Supply.heldKey⟩
    let begun : RunLoop Recorder LogicalClock :=
      start (Machine.initial.install [0x70, 0x01, 0x12, 0x00]).state Recorder.new
        (Mailbox.new (some inputCapacity) false) ⟨0⟩ ⟨100, 50⟩
    let mine := [.round, .round, .round]
    let theirs := [.offer (.key 5), .round, .round, .offer (.key 0x1F), .round, .round, .round]
    20000000 < (begun.after supply mine).clock.now ∧
      20000000 < (begun.after supply theirs).clock.now ∧
      (∀ r ∈ begun.rounds supply mine, r.clock.now ≤ 20000000 → r.readsKeys = false) ∧
      Alike supply 20000000 (begun.rounds supply mine) (begun.rounds supply theirs) := by
  intro supply begun mine theirs
  have hmine : 20000000 < (begun.after supply mine).clock.now := by decide +kernel
  have htheirs : 20000000 < (begun.after supply theirs).clock.now := by decide +kernel
  have hkeys : ∀ r ∈ begun.rounds supply mine, r.clock.now ≤ 20000000 → r.readsKeys = false := by
    decide +kernel
  subst begun
  exact ⟨hmine, htheirs, hkeys, keys_do_not_disturb Recorder.reading supply
    (Machine.initial.install [0x70, 0x01, 0x12, 0x00]).state Recorder.new
    (Mailbox.new (some inputCapacity) false) 0 ⟨100, 50⟩ mine theirs 20000000 ⟨rfl, rfl⟩
    (by decide) hmine htheirs hkeys⟩

end Chip8.RunLoop
