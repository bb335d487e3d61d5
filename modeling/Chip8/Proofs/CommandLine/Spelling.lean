import Chip8.CommandLine.Parse
import Mathlib.Data.List.TakeWhile

/-!
# Spelling of options

How an option with its value is written in arguments, and that each such argument is taken for what
it is: `ofText_optionText` and `eq_optionText` for the name of an option, `ofText_eq_plain_iff` for a
value that stands alone. What comes of several options is not said here.
-/
namespace Chip8.CommandLine

/-- What stands behind the two dashes of an option with this name. -/
def longBody (name : List Char) : Option String → List Char
  | none => name
  | some value => name ++ '=' :: value.toList

/-- The argument that names an option, with a value attached to it or without one. -/
def optionText (flag : Flag) : Option String → String
  | none => "--" ++ flag.name
  | some value => "--" ++ flag.name ++ "=" ++ value

/-- A value may stand alone if it does not begin with a dash, or is nothing else. -/
def Separable (text : String) : Prop := text.toList.head? = some '-' → text = "-"

instance (text : String) : Decidable (Separable text) :=
  inferInstanceAs (Decidable (text.toList.head? = some '-' → text = "-"))

/-- An option with its value, and how they are written. -/
structure Occurrence where
  flag : Flag
  text : String
  /-- The value is attached to the option and not an argument of its own. -/
  attached : Bool

namespace Occurrence

def given (o : Occurrence) : Flag × String := (o.flag, o.text)

def arguments (o : Occurrence) : List String :=
  if o.attached then [optionText o.flag (some o.text)] else [optionText o.flag none, o.text]

def Writable (o : Occurrence) : Prop := o.attached = false → Separable o.text

instance (o : Occurrence) : Decidable o.Writable :=
  inferInstanceAs (Decidable (o.attached = false → Separable o.text))

end Occurrence

variable {flag : Flag} {text value : String} {attached : Option String}

theorem ne_equals_of_mem {name : List Char} (h : '=' ∉ name) :
    ∀ c ∈ name, decide (c ≠ '=') = true :=
  fun _ hc => decide_eq_true fun heq => h (heq ▸ hc)

theorem takeWhile_longBody {name : List Char} (h : '=' ∉ name) (attached : Option String) :
    (longBody name attached).takeWhile (· ≠ '=') = name := by
  have hname := ne_equals_of_mem h
  cases attached with
  | none => exact List.takeWhile_eq_self_iff.mpr hname
  | some value =>
    rw [longBody, List.takeWhile_append_of_pos hname]
    simp

theorem attachedValue_longBody {name : List Char} (h : '=' ∉ name) (attached : Option String) :
    Argument.attachedValue (longBody name attached) = attached := by
  have hname := ne_equals_of_mem h
  cases attached with
  | none =>
    rw [longBody, Argument.attachedValue, List.dropWhile_eq_nil_iff.mpr hname]
  | some value =>
    rw [longBody, Argument.attachedValue, List.dropWhile_append_of_pos hname]
    simp

/-- Every text behind two dashes is a name, with a value attached to it or without one. -/
theorem longBody_takeWhile (body : List Char) :
    longBody (body.takeWhile (· ≠ '=')) (Argument.attachedValue body) = body := by
  have hsplit : body.takeWhile (· ≠ '=') ++ body.dropWhile (· ≠ '=') = body :=
    List.takeWhile_append_dropWhile
  unfold Argument.attachedValue
  split
  · next h =>
    rw [h, List.append_nil] at hsplit
    exact hsplit
  · next c value h =>
    have hequals : c = '=' := by
      have hhead := List.head?_dropWhile_not (· ≠ '=') body
      rw [h] at hhead
      exact of_not_not (of_decide_eq_false hhead)
    rw [h, hequals] at hsplit
    rw [longBody, String.toList_ofList]
    exact hsplit

theorem ofLongName_eq_option_iff {name : String} {given : Option String} :
    Argument.ofLongName name given = .option flag attached ↔ name = flag.name ∧ given = attached := by
  constructor
  · intro h
    unfold Argument.ofLongName at h
    split at h
    · split at h <;> contradiction
    split at h
    · split at h <;> contradiction
    split at h
    · next found hfound =>
      obtain ⟨rfl, rfl⟩ := Argument.option.inj h
      have hname := List.find?_some hfound
      exact ⟨(eq_of_beq hname).symm, rfl⟩
    · contradiction
  · rintro ⟨rfl, rfl⟩
    have hhelp : flag.name ≠ "help" := by cases flag <;> decide
    have hversion : flag.name ≠ "version" := by cases flag <;> decide
    rw [Argument.ofLongName, if_neg hhelp, if_neg hversion, Flag.named?_name]

theorem ofText_of_long {body : List Char} (h : text.toList = '-' :: '-' :: body) (hbody : body ≠ []) :
    Argument.ofText text = Argument.ofLongName (String.ofList (body.takeWhile (· ≠ '=')))
      (Argument.attachedValue body) := by
  cases body with
  | nil => exact absurd rfl hbody
  | cons c body =>
    rw [Argument.ofText, h]
    rfl

theorem toList_optionText (flag : Flag) (attached : Option String) :
    (optionText flag attached).toList = '-' :: '-' :: longBody flag.name.toList attached := by
  cases attached <;> simp [optionText, longBody]

theorem ofText_optionText (flag : Flag) (attached : Option String) :
    Argument.ofText (optionText flag attached) = .option flag attached := by
  have hname : '=' ∉ flag.name.toList := by cases flag <;> decide
  have hbody : longBody flag.name.toList attached ≠ [] := by
    cases flag <;> cases attached <;> simp [longBody, Flag.name]
  rw [ofText_of_long (toList_optionText flag attached) hbody, takeWhile_longBody hname,
    attachedValue_longBody hname, String.ofList_toList]
  exact ofLongName_eq_option_iff.mpr ⟨rfl, rfl⟩

theorem eq_optionText (h : Argument.ofText text = .option flag attached) :
    text = optionText flag attached := by
  unfold Argument.ofText at h
  split at h
  case h_2 body _ htext =>
    obtain ⟨hname, hattached⟩ := ofLongName_eq_option_iff.mp h
    apply String.toList_injective
    rw [htext, toList_optionText, ← hname, ← hattached, String.toList_ofList, longBody_takeWhile]
  all_goals contradiction

theorem separable_iff :
    Separable text ↔ ∀ second rest, text.toList ≠ '-' :: second :: rest := by
  constructor
  · intro h second rest htext
    have hdash : text = "-" := h (by rw [htext]; rfl)
    rw [hdash] at htext
    exact absurd htext (by simp)
  · intro h hhead
    obtain ⟨rest, htext⟩ := List.head?_eq_some_iff.mp hhead
    cases rest with
    | nil => exact String.toList_injective htext
    | cons second rest => exact absurd htext (h second rest)

theorem ofLongName_ne (name : String) (given : Option String) :
    Argument.ofLongName name given ≠ .separator ∧
      ∀ value, Argument.ofLongName name given ≠ .plain value := by
  unfold Argument.ofLongName
  repeat' split
  all_goals exact ⟨nofun, fun _ => nofun⟩

theorem eq_of_separator (h : Argument.ofText text = .separator) : text = "--" := by
  unfold Argument.ofText at h
  split at h
  case h_1 htext => exact String.toList_injective htext
  case h_2 => exact absurd h (ofLongName_ne _ _).1
  all_goals contradiction

theorem ofText_eq_plain_iff :
    Argument.ofText text = .plain value ↔ Separable text ∧ value = text := by
  rw [separable_iff]
  constructor
  · intro h
    unfold Argument.ofText at h
    split at h
    case h_2 => exact absurd h ((ofLongName_ne _ _).2 value)
    case h_6 hother => exact ⟨hother, (Argument.plain.inj h).symm⟩
    all_goals contradiction
  · rintro ⟨hseparable, rfl⟩
    unfold Argument.ofText
    split
    case h_6 => rfl
    all_goals next htext => exact absurd htext (hseparable _ _)

end Chip8.CommandLine
