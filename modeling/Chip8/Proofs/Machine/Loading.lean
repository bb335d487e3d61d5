import Chip8.Proofs.Machine.Operation

/-!
# Loading from a reader

A reader's portions count only through the bytes received before the reading ends and through the
failure that ends it, if one does. `readToEnd_eq` says so of reading, and from that follows what
loading makes of a reader. How a reader comes by its portions is not covered.
-/
namespace Chip8

namespace Portion

/-- Another portion is asked for after this one. -/
def goesOn : Portion → Bool
  | bytes data => !data.isEmpty
  | interrupted => true
  | failed _ => false

def data : Portion → List UInt8
  | bytes data => data
  | _ => []

def message? : Portion → Option String
  | failed message => some message
  | _ => none

/-- All bytes up to the end of the input or the first failure, whichever comes first. -/
def received (reader : List Portion) : List UInt8 := (reader.takeWhile goesOn).flatMap data

/-- The message of that failure, unless the input ends before. -/
def failure? (reader : List Portion) : Option String :=
  (reader.dropWhile goesOn).head?.bind message?

variable {portion : Portion} {reader : List Portion} {message : String}

theorem received_cons (h : portion.goesOn = true) (reader : List Portion) :
    received (portion :: reader) = portion.data ++ received reader := by
  rw [received, List.takeWhile_cons_of_pos h, List.flatMap_cons, received]

theorem failure?_cons (h : portion.goesOn = true) (reader : List Portion) :
    failure? (portion :: reader) = failure? reader := by
  rw [failure?, List.dropWhile_cons_of_pos h, failure?]

/-- Reading to the end gives the bytes received, unless a failure ends it. -/
theorem readToEnd_eq (reader : List Portion) :
    readToEnd reader =
      match failure? reader with
      | some message => .error message
      | none => .ok (received reader) := by
  induction reader with
  | nil => rfl
  | cons portion reader ih =>
    cases portion with
    | interrupted =>
      rw [readToEnd, ih, failure?_cons rfl, received_cons rfl]
      rfl
    | failed message => rfl
    | bytes data =>
      cases data with
      | nil => rfl
      | cons first more =>
        rw [readToEnd, ih, failure?_cons rfl, received_cons rfl]
        cases failure? reader <;> rfl

theorem readToEnd_of_failure (h : failure? reader = some message) :
    readToEnd reader = .error message := by
  rw [readToEnd_eq, h]

theorem readToEnd_of_no_failure (h : failure? reader = none) :
    readToEnd reader = .ok (received reader) := by
  rw [readToEnd_eq, h]

end Portion

namespace Machine

variable {m : Machine} {reader : List Portion}

theorem installFrom_of_failure {message : String} (h : Portion.failure? reader = some message) :
    m.installFrom reader = .failed (.device message) m := by
  rw [installFrom, Portion.readToEnd_of_failure h]

theorem installFrom_of_no_failure (h : Portion.failure? reader = none) :
    m.installFrom reader = m.install (Portion.received reader) := by
  rw [installFrom, Portion.readToEnd_of_no_failure h]

/-- What is left of loading a machine from a reader. -/
structure Loads (m : Machine) (reader : List Portion) (o : Outcome Machine Unit) : Prop where
  /-- A failure changes nothing, however many bytes came before it. -/
  failed : ∀ message, Portion.failure? reader = some message →
    o.result = .error (.device message) ∧ o.state = m
  /-- Too many bytes change nothing. -/
  too_large : Portion.failure? reader = none → 3584 < (Portion.received reader).length →
    o.result = .error (.romTooLarge (Portion.received reader).length 3584) ∧ o.state = m
  /-- Any other program is put where programs go, and nothing else changes. -/
  loaded : Portion.failure? reader = none → (Portion.received reader).length ≤ 3584 →
    o.result = .ok () ∧
      (∀ k < (Portion.received reader).length,
        o.state.memory[0x200 + k]? = (Portion.received reader)[k]?) ∧
      (∀ (a : Nat) (ha : a < 4096), ¬ (0x200 ≤ a ∧ a < 0x200 + (Portion.received reader).length) →
        o.state.memory[a] = m.memory[a]) ∧
      o.state = { m with memory := o.state.memory }

theorem loads_installFrom (m : Machine) (reader : List Portion) :
    Loads m reader (m.installFrom reader) := by
  constructor
  case failed =>
    intro message hfailure
    rw [installFrom_of_failure hfailure]
    exact ⟨rfl, rfl⟩
  case too_large =>
    intro hfailure hlarge
    rw [installFrom_of_no_failure hfailure, install, if_pos hlarge]
    exact ⟨rfl, rfl⟩
  case loaded =>
    intro hfailure hfits
    rw [installFrom_of_no_failure hfailure, install_of_fits (Nat.not_lt.mpr hfits)]
    refine ⟨rfl, fun k hk => ?_, fun a ha houtside => ?_, rfl⟩
    · have hin : 0x200 + k < 4096 := by omega
      exact Memory.getElem?_write_inside m.memory hk hin
    · exact Memory.getElem_write_outside m.memory ha houtside

/-- Loading from a reader depends on the bytes received and on how the reading ends, and on nothing
else about the portions. -/
theorem loading_depends_on_bytes_received (m : Machine) (reader : List Portion) :
    Loads m reader (m.installFrom reader) ∧
      ∀ other, Portion.received other = Portion.received reader →
        Portion.failure? other = Portion.failure? reader →
          m.installFrom other = m.installFrom reader := by
  refine ⟨loads_installFrom m reader, fun other hreceived hfailure => ?_⟩
  rw [installFrom, installFrom, Portion.readToEnd_eq, Portion.readToEnd_eq, hreceived, hfailure]

/-- Three bytes in one portion and in two, with an interruption and a portion behind the end of the
input, and a failure behind a byte too many. -/
theorem loading_depends_on_bytes_received_interrupted :
    initial.installFrom [.interrupted, .bytes [0x12], .bytes [0x00, 0xFF], .bytes [], .bytes [1]] =
        initial.installFrom [.bytes [0x12, 0x00, 0xFF]] ∧
      (initial.installFrom [.bytes [0x12, 0x00, 0xFF]]).result = .ok () ∧
      (initial.installFrom [.bytes (List.replicate 3585 0), .failed "gone"]).result =
        .error (.device "gone") := by
  obtain ⟨hloads, hsame⟩ := loading_depends_on_bytes_received initial [.bytes [0x12, 0x00, 0xFF]]
  obtain ⟨hfails, -⟩ := loading_depends_on_bytes_received initial
    [.bytes (List.replicate 3585 0), .failed "gone"]
  exact ⟨hsame _ rfl rfl, (hloads.loaded rfl (by decide)).1, (hfails.failed "gone" rfl).1⟩

end Machine
end Chip8
