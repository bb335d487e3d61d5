import Chip8.CommandLine.Settings
import Mathlib.Data.List.Induction
import Mathlib.Data.Nat.Digits.Defs

/-!
# Values of options

Which texts an option takes, and what value such a text means. A draft and settings are read here as
functions of the option, so that one lemma speaks of all options: `settle_of_absent` has all that
completing an option can do to a draft, and `value_of_finish` what a draft gives in the end.
-/
namespace Chip8.CommandLine

inductive Value where
  | path (text : String)
  | rate (hz : Nat)
  deriving DecidableEq, Repr

/-- What decimal digits amount to by their places. -/
def placeValue (digits : List Char) : Nat :=
  Nat.ofDigits 10 (digits.reverse.map fun digit => digit.toNat - '0'.toNat)

def AreDigits (digits : List Char) : Prop := digits ≠ [] ∧ digits.all Char.isDigit = true

instance (digits : List Char) : Decidable (AreDigits digits) :=
  inferInstanceAs (Decidable (digits ≠ [] ∧ digits.all Char.isDigit = true))

/-- Decimal digits, perhaps behind a sign, and the number that they stand for. -/
inductive Numeral : List Char → Int → Prop
  | bare {digits : List Char} (h : AreDigits digits) : Numeral digits (placeValue digits)
  | plus {digits : List Char} (h : AreDigits digits) : Numeral ('+' :: digits) (placeValue digits)
  | minus {digits : List Char} (h : AreDigits digits) : Numeral ('-' :: digits) (-placeValue digits)

def IsPath (text : String) (value : Value) : Prop := text ≠ "" ∧ value = .path text

def IsRate (text : String) (value : Value) : Prop :=
  ∃ hz : Nat, Numeral text.toList hz ∧ 1 ≤ hz ∧ hz ≤ 4294967295 ∧ value = .rate hz

/-- The value that a text means when it is given to the option. -/
def Means : Flag → String → Value → Prop
  | .rom | .logFile => IsPath
  | .clockHz | .resetHz => IsRate

/-- The value of an option that is not given. There is none for the program. -/
def usual? : Flag → Option Value
  | .rom => none
  | .clockHz => some (.rate 120)
  | .resetHz => some (.rate 6)
  | .logFile => some (.path "chip8.log")

def Settings.value (s : Settings) : Flag → Value
  | .rom => .path s.rom
  | .clockHz => .rate s.clockHz
  | .resetHz => .rate s.resetHz
  | .logFile => .path s.logFile

def Draft.value? (d : Draft) : Flag → Option Value
  | .rom => d.rom.map .path
  | .clockHz => d.clockHz.map .rate
  | .resetHz => d.resetHz.map .rate
  | .logFile => d.logFile.map .path

variable {text : String} {hz : Nat} {value : Value} {flag : Flag} {d : Draft}

theorem decimalValue_eq_placeValue (digits : List Char) :
    decimalValue digits = placeValue digits := by
  induction digits using List.reverseRecOn with
  | nil => rfl
  | append_singleton digits digit ih =>
    have hplaces : placeValue (digits ++ [digit]) =
        digit.toNat - '0'.toNat + 10 * placeValue digits := by
      rw [placeValue, List.reverse_append, List.reverse_singleton, List.singleton_append,
        List.map_cons, Nat.ofDigits_cons, placeValue]
    rw [hplaces, ← ih, decimalValue, List.foldl_append, List.foldl_cons, List.foldl_nil,
      ← decimalValue]
    omega

theorem unsigned_of_areDigits {digits : List Char} (h : AreDigits digits) :
    unsigned digits = digits := by
  unfold unsigned
  split
  · exact absurd (List.all_eq_true.mp h.2 '+' List.mem_cons_self) (by decide)
  · rfl

theorem eq_unsigned_or (characters : List Char) :
    characters = unsigned characters ∨ characters = '+' :: unsigned characters := by
  unfold unsigned
  split
  · exact .inr rfl
  · exact .inl rfl

/-- A positive number has no minus sign. -/
theorem numeral_iff (hpos : 1 ≤ hz) {characters : List Char} :
    Numeral characters hz ↔
      AreDigits (unsigned characters) ∧ decimalValue (unsigned characters) = hz := by
  rw [decimalValue_eq_placeValue]
  constructor
  · intro h
    generalize hvalue : (hz : Int) = value at h
    cases h with
    | bare h =>
      rw [unsigned_of_areDigits h]
      exact ⟨h, (Int.ofNat.inj hvalue).symm⟩
    | plus h => exact ⟨h, (Int.ofNat.inj hvalue).symm⟩
    | minus h => omega
  · rintro ⟨hdigits, rfl⟩
    rcases eq_unsigned_or characters with h | h
    · rw [← h] at hdigits ⊢
      exact .bare hdigits
    · generalize unsigned characters = digits at h hdigits
      exact h ▸ .plus hdigits

theorem rate?_eq_ok_iff :
    rate? text = .ok hz ↔ Numeral text.toList hz ∧ 1 ≤ hz ∧ hz ≤ 4294967295 := by
  constructor
  · intro h
    rw [rate?] at h
    split at h
    · next hgood =>
      obtain ⟨hne, hall, hpos, hle⟩ := hgood
      obtain rfl := Except.ok.inj h
      exact ⟨(numeral_iff hpos).mpr ⟨⟨hne, hall⟩, rfl⟩, hpos, hle⟩
    · contradiction
  · rintro ⟨hnumeral, hpos, hle⟩
    obtain ⟨⟨hne, hall⟩, rfl⟩ := (numeral_iff hpos).mp hnumeral
    exact if_pos ⟨hne, hall, hpos, hle⟩

/-- What an option makes of a text. -/
def check (flag : Flag) (text : String) : Except Refusal Value :=
  match flag with
  | .rom | .logFile => (path? text).map .path
  | .clockHz | .resetHz => (rate? text).map .rate

theorem path?_map_eq_ok_iff : (path? text).map .path = .ok value ↔ IsPath text value := by
  rw [path?, IsPath]
  split
  · next h => simp [h, Except.map]
  · next h => simp [h, Except.map, eq_comm]

theorem rate?_map_eq_ok_iff : (rate? text).map .rate = .ok value ↔ IsRate text value := by
  constructor
  · intro h
    cases hrate : rate? text with
    | error refusal =>
      rw [hrate] at h
      contradiction
    | ok hz =>
      rw [hrate] at h
      obtain ⟨hnumeral, hpos, hle⟩ := rate?_eq_ok_iff.mp hrate
      exact ⟨hz, hnumeral, hpos, hle, (Except.ok.inj h).symm⟩
  · rintro ⟨hz, hnumeral, hpos, hle, rfl⟩
    rw [rate?_eq_ok_iff.mpr ⟨hnumeral, hpos, hle⟩]
    rfl

theorem check_eq_ok_iff : check flag text = .ok value ↔ Means flag text value := by
  cases flag with
  | rom | logFile => exact path?_map_eq_ok_iff
  | clockHz | resetHz => exact rate?_map_eq_ok_iff

/-- Assigning a text gives the option its value and leaves the others alone, or it is refused. -/
theorem value?_assign (d : Draft) (flag : Flag) (text : String) :
    (d.assign flag text).map Draft.value? =
      (check flag text).map fun value other =>
        if other = flag then some value else d.value? other := by
  cases flag with
  | rom | logFile =>
    rw [Draft.assign, check]
    cases path? text with
    | error refusal => rfl
    | ok path => exact congrArg Except.ok (funext fun other => by cases other <;> rfl)
  | clockHz | resetHz =>
    rw [Draft.assign, check]
    cases rate? text with
    | error refusal => rfl
    | ok hz => exact congrArg Except.ok (funext fun other => by cases other <;> rfl)

theorem has_eq_isSome (d : Draft) (flag : Flag) : d.has flag = (d.value? flag).isSome := by
  cases flag <;> exact Option.isSome_map.symm

theorem settle_of_present (h : d.value? flag = some value) (text : String) :
    d.settle flag (some text) = .error .repeatedOption := by
  have hhas : d.has flag = true := by rw [has_eq_isSome, h, Option.isSome_some]
  exact if_pos hhas

/-- An option that is not given yet takes what it is given, and the others are left alone; or there
is no value that it means. -/
theorem settle_of_absent (h : d.value? flag = none) (text : String) :
    (∃ value d', Means flag text value ∧ d.settle flag (some text) = .ok d' ∧
      ∀ other, d'.value? other = if other = flag then some value else d.value? other) ∨
    ((∀ value, ¬ Means flag text value) ∧
      ∃ refusal, d.settle flag (some text) = .error refusal) := by
  have hhas : ¬ d.has flag = true := by
    rw [has_eq_isSome, h]
    exact Bool.false_ne_true
  have hsettle : d.settle flag (some text) = d.assign flag text := if_neg hhas
  have hassign := value?_assign d flag text
  rw [hsettle]
  cases hcheck : check flag text with
  | error refusal =>
    right
    rw [hcheck] at hassign
    refine ⟨fun value hmeans => ?_, ?_⟩
    · rw [check_eq_ok_iff.mpr hmeans] at hcheck
      contradiction
    · cases hd : d.assign flag text with
      | error refusal => exact ⟨refusal, rfl⟩
      | ok d' =>
        rw [hd] at hassign
        contradiction
  | ok value =>
    left
    rw [hcheck] at hassign
    cases hd : d.assign flag text with
    | error refusal =>
      rw [hd] at hassign
      contradiction
    | ok d' =>
      rw [hd] at hassign
      exact ⟨value, d', check_eq_ok_iff.mp hcheck, rfl, congrFun (Except.ok.inj hassign)⟩

theorem Settings.eq_of_value {s s' : Settings} (h : ∀ flag, s.value flag = s'.value flag) :
    s = s' := by
  obtain ⟨rom, clockHz, resetHz, logFile⟩ := s
  obtain rfl := Value.path.inj (h .rom)
  obtain rfl := Value.rate.inj (h .clockHz)
  obtain rfl := Value.rate.inj (h .resetHz)
  obtain rfl := Value.path.inj (h .logFile)
  rfl

theorem finish_of_rom (h : d.value? .rom = some value) : ∃ s, d.finish = .ok s := by
  obtain ⟨path, hrom, -⟩ := Option.map_eq_some_iff.mp h
  rw [Draft.finish, hrom]
  exact ⟨_, rfl⟩

/-- A finished draft has the value that an option is given, or else the usual one. -/
theorem value_of_finish {s : Settings} (h : d.finish = .ok s) (flag : Flag) :
    (d.value? flag).or (usual? flag) = some (s.value flag) := by
  obtain ⟨rom, clockHz, resetHz, logFile⟩ := d
  cases rom with
  | none => contradiction
  | some rom =>
    obtain rfl := Except.ok.inj h
    cases flag with
    | rom => rfl
    | clockHz => cases clockHz <;> rfl
    | resetHz => cases resetHz <;> rfl
    | logFile => cases logFile <;> rfl

end Chip8.CommandLine
