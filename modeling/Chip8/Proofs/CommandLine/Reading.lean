import Chip8.Proofs.CommandLine.Spelling

/-!
# Reading options

Reading a command line completes the options that are written there, one after the other and however
they are written. `parseFrom_occurrences` says so of arguments that write options out, and
`yields_of_parseFrom` that no other arguments give settings. Which values an option takes plays no
part here.
-/
namespace Chip8.CommandLine

/-- Completes options one after the other. -/
def settleAll (d : Draft) : List (Flag × String) → Except Refusal Draft
  | [] => .ok d
  | (flag, text) :: given =>
    (d.settle flag (some text)).bind fun d => settleAll d given

/-- Two dashes may come last. -/
def Ends (ending : List String) : Prop := ending = [] ∨ ending = ["--"]

/-- The arguments are options that are written out, and completing these gives the settings. -/
def Yields (d : Draft) (arguments : List String) (s : Settings) : Prop :=
  ∃ (os : List Occurrence) (ending : List String), (∀ o ∈ os, o.Writable) ∧ Ends ending ∧
    arguments = os.flatMap Occurrence.arguments ++ ending ∧
    (settleAll d (os.map Occurrence.given)).bind Draft.finish = .ok s

/-- The arguments that a waiting option has taken. -/
def taken : Option Waiting → List String
  | none => []
  | some ⟨flag, none⟩ => [optionText flag none]
  | some ⟨flag, some text⟩ => [optionText flag none, text]

/-- The value of a waiting option is one that may stand alone. -/
def Takes : Option Waiting → Prop
  | some ⟨_, some text⟩ => Separable text
  | _ => True

variable {d : Draft} {waiting : Option Waiting} {rest ending : List String} {s : Settings}
  {os : List Occurrence}

theorem takes_none : Takes none := trivial

theorem bind_eq_ok {ε α β : Type} {x : Except ε α} {f : α → Except ε β} {b : β}
    (h : x.bind f = .ok b) : ∃ a, x = .ok a ∧ f a = .ok b := by
  cases x with
  | error e => contradiction
  | ok a => exact ⟨a, rfl, h⟩

theorem bind_bind {ε α β γ : Type} (x : Except ε α) (f : α → Except ε β) (g : β → Except ε γ) :
    (x.bind f).bind g = x.bind fun a => (f a).bind g :=
  bind_assoc x f g

theorem parseFrom_of_ends (h : Ends ending) : parseFrom d waiting ending = conclude d waiting := by
  rcases h with rfl | rfl <;> rfl

theorem parseFrom_attached (flag : Flag) (text : String) (rest : List String) :
    parseFrom d waiting (optionText flag (some text) :: rest) =
      (settleWaiting d waiting).bind fun d =>
        (d.settle flag (some text)).bind fun d => parseFrom d none rest := by
  rw [parseFrom.eq_def]
  simp only [ofText_optionText]
  rw [← bind_bind]
  cases (settleWaiting d waiting).bind fun d => d.settle flag (some text) <;> rfl

theorem parseFrom_bare (flag : Flag) (rest : List String) :
    parseFrom d waiting (optionText flag none :: rest) =
      (settleWaiting d waiting).bind fun d => parseFrom d (some ⟨flag, none⟩) rest := by
  rw [parseFrom.eq_def]
  simp only [ofText_optionText]
  cases settleWaiting d waiting <;> rfl

theorem parseFrom_separate (flag : Flag) (h : Separable text) (rest : List String) :
    parseFrom d (some ⟨flag, none⟩) (text :: rest) = parseFrom d (some ⟨flag, some text⟩) rest := by
  have htext := ofText_eq_plain_iff.mpr ⟨h, rfl⟩
  rw [parseFrom.eq_def]
  simp only [htext]

/-- Options that are written out are completed one after the other. -/
theorem parseFrom_occurrences (hos : ∀ o ∈ os, o.Writable) (hending : Ends ending) :
    parseFrom d waiting (os.flatMap Occurrence.arguments ++ ending) =
      (settleWaiting d waiting).bind fun d =>
        (settleAll d (os.map Occurrence.given)).bind Draft.finish := by
  induction os generalizing d waiting with
  | nil => exact parseFrom_of_ends hending
  | cons o os ih =>
    obtain ⟨ho, hrest⟩ := List.forall_mem_cons.mp hos
    obtain ⟨flag, text, attached⟩ := o
    rw [List.flatMap_cons, List.append_assoc]
    show _ = (settleWaiting d waiting).bind fun d =>
      ((d.settle flag (some text)).bind fun d => settleAll d (os.map Occurrence.given)).bind
        Draft.finish
    simp only [bind_bind]
    cases attached with
    | true =>
      show parseFrom d waiting (optionText flag (some text) :: (_ ++ ending)) = _
      simp only [parseFrom_attached, ih hrest]
      rfl
    | false =>
      show parseFrom d waiting (optionText flag none :: text :: (_ ++ ending)) = _
      simp only [parseFrom_bare, parseFrom_separate flag (ho rfl), ih hrest]
      rfl

theorem settleAll_append (d : Draft) (first second : List (Flag × String)) :
    settleAll d (first ++ second) = (settleAll d first).bind fun d => settleAll d second := by
  induction first generalizing d with
  | nil => rfl
  | cons value first ih =>
    simp only [List.cons_append, settleAll, bind_bind, ih]

theorem Yields.prepend {d' : Draft} (hos : ∀ o ∈ os, o.Writable)
    (hd : settleAll d (os.map Occurrence.given) = .ok d') (h : Yields d' rest s) :
    Yields d (os.flatMap Occurrence.arguments ++ rest) s := by
  obtain ⟨more, ending, hmore, hending, rfl, hs⟩ := h
  refine ⟨os ++ more, ending, ?_, hending, ?_, ?_⟩
  · intro o ho
    exact (List.mem_append.mp ho).elim (hos o) (hmore o)
  · rw [List.flatMap_append, List.append_assoc]
  · rw [List.map_append, settleAll_append, hd]
    exact hs

/-- What a waiting option has taken is an option that is written out, if it can be completed. -/
theorem taken_of_settleWaiting {d' : Draft} (hwaiting : Takes waiting)
    (h : settleWaiting d waiting = .ok d') :
    ∃ os : List Occurrence, (∀ o ∈ os, o.Writable) ∧
      taken waiting = os.flatMap Occurrence.arguments ∧
      settleAll d (os.map Occurrence.given) = .ok d' := by
  match waiting with
  | none => exact ⟨[], List.forall_mem_nil _, rfl, h⟩
  | some ⟨flag, none⟩ => contradiction
  | some ⟨flag, some text⟩ =>
    have hsettle : d.settle flag (some text) = .ok d' := h
    refine ⟨[⟨flag, text, false⟩], ?_, rfl, ?_⟩
    · exact List.forall_mem_singleton.mpr fun _ => hwaiting
    · show (d.settle flag (some text)).bind .ok = .ok d'
      rw [hsettle]
      rfl

theorem yields_of_settleWaiting {d' : Draft} (hwaiting : Takes waiting)
    (hd : settleWaiting d waiting = .ok d') (h : Yields d' rest s) :
    Yields d (taken waiting ++ rest) s := by
  obtain ⟨os, hos, htaken, hall⟩ := taken_of_settleWaiting hwaiting hd
  exact htaken ▸ h.prepend hos hall

theorem yields_of_conclude (hwaiting : Takes waiting) (hending : Ends ending)
    (h : conclude d waiting = .ok s) : Yields d (taken waiting ++ ending) s := by
  obtain ⟨d', hd, hs⟩ := bind_eq_ok h
  exact yields_of_settleWaiting hwaiting hd ⟨[], ending, List.forall_mem_nil _, hending, rfl, hs⟩

/-- Arguments that give settings are options that are written out, the waiting one included. -/
theorem yields_of_parseFrom (hwaiting : Takes waiting) (h : parseFrom d waiting rest = .ok s) :
    Yields d (taken waiting ++ rest) s := by
  -- an argument that is taken moves from the rest to the waiting option, and a waiting option that
  -- is completed moves to the options that are written out
  induction rest generalizing d waiting with
  | nil => exact yields_of_conclude hwaiting (.inl rfl) h
  | cons text rest ih =>
    cases harg : Argument.ofText text with
    | unknown | surplusValue =>
      rw [parseFrom.eq_def] at h
      simp only [harg] at h
      contradiction
    | help | version =>
      rw [parseFrom.eq_def] at h
      simp only [harg] at h
      obtain ⟨_, _, hrefused⟩ := bind_eq_ok h
      contradiction
    | separator =>
      obtain rfl := eq_of_separator harg
      rw [parseFrom.eq_def] at h
      simp only [harg] at h
      cases rest with
      | nil => exact yields_of_conclude hwaiting (.inr rfl) h
      | cons next rest => contradiction
    | option flag attached =>
      obtain rfl := eq_optionText harg
      cases attached with
      | none =>
        rw [parseFrom_bare] at h
        obtain ⟨d', hd, hrest⟩ := bind_eq_ok h
        have hbare : Takes (some ⟨flag, none⟩) := trivial
        exact yields_of_settleWaiting hwaiting hd (ih hbare hrest)
      | some value =>
        rw [parseFrom_attached] at h
        obtain ⟨d', hd, hsettled⟩ := bind_eq_ok h
        obtain ⟨d'', hd', hrest⟩ := bind_eq_ok hsettled
        have hone : settleAll d' [(flag, value)] = .ok d'' := by
          rw [settleAll, hd']
          rfl
        have hwritable : ∀ o ∈ [(⟨flag, value, true⟩ : Occurrence)], o.Writable :=
          List.forall_mem_singleton.mpr nofun
        exact yields_of_settleWaiting hwaiting hd ((ih takes_none hrest).prepend hwritable hone)
    | plain value =>
      obtain ⟨hseparable, rfl⟩ := ofText_eq_plain_iff.mp harg
      match waiting with
      | some ⟨flag, none⟩ =>
        rw [parseFrom_separate flag hseparable] at h
        have htakes : Takes (some ⟨flag, some value⟩) := hseparable
        exact ih htakes h
      | some ⟨flag, some text⟩ | none =>
        rw [parseFrom.eq_def] at h
        simp only [harg] at h
        contradiction

theorem parse_occurrences (hos : ∀ o ∈ os, o.Writable) (hending : Ends ending) :
    parse (os.flatMap Occurrence.arguments ++ ending) =
      (settleAll Draft.empty (os.map Occurrence.given)).bind Draft.finish :=
  parseFrom_occurrences hos hending

theorem parse_eq_ok_iff_yields {arguments : List String} :
    parse arguments = .ok s ↔ Yields Draft.empty arguments s := by
  constructor
  · exact fun h => yields_of_parseFrom takes_none h
  · rintro ⟨os, ending, hos, hending, rfl, hs⟩
    exact (parse_occurrences hos hending).trans hs

end Chip8.CommandLine
