import Chip8.Proofs.CommandLine.Reading
import Chip8.Proofs.CommandLine.Values
import Mathlib.Data.List.Nodup

/-!
# Order of options

The settings depend on which values are given to which options, not on the order of the options nor
on how they are written. Reading is first said for the options in the order in which they stand:
`settleAll_cases` has all that completing them can come to. As this speaks of the options given only
by membership, another order changes nothing.
-/
namespace Chip8.CommandLine

/-- The draft has the values given so far, and none for the other options. -/
structure Collects (d : Draft) (given : List (Flag × String)) : Prop where
  distinct : (given.map Prod.fst).Nodup
  value_eq : ∀ flag text, (flag, text) ∈ given →
    ∃ value, Means flag text value ∧ d.value? flag = some value
  absent : ∀ flag, flag ∉ given.map Prod.fst → d.value? flag = none

/-- The settings are the values given, and the usual ones where none is given. -/
def Holds (given : List (Flag × String)) (s : Settings) : Prop :=
  ∀ flag, (∃ text, (flag, text) ∈ given ∧ Means flag text (s.value flag)) ∨
    (flag ∉ given.map Prod.fst ∧ usual? flag = some (s.value flag))

/-- Each option is given a text that means a value. -/
def Acceptable (given : List (Flag × String)) : Prop :=
  ∀ flag text, (flag, text) ∈ given → ∃ value, Means flag text value

/-- Some of the options are given, each at most once and with a value that it takes, and one of them
is the program. -/
structure Complete (given : List (Flag × String)) : Prop where
  distinct : (given.map Prod.fst).Nodup
  rom_mem : Flag.rom ∈ given.map Prod.fst
  acceptable : Acceptable given

/-- The arguments give just these values, in any order and each written in one of the two ways. -/
def Spells (given : List (Flag × String)) (arguments : List String) : Prop :=
  ∃ os : List Occurrence, (os.map Occurrence.given).Perm given ∧ (∀ o ∈ os, o.Writable) ∧
    arguments = os.flatMap Occurrence.arguments

/-- The arguments name a program, and the rates are ones that a run can have. -/
structure Runnable (arguments : List String) (s : Settings) : Prop where
  rom_given : "--rom=" ++ s.rom ∈ arguments ∨ ["--rom", s.rom] <:+: arguments
  rom_ne : s.rom ≠ ""
  step_rate : 1 ≤ s.rates.stepHz ∧ s.rates.stepHz ≤ 4294967295
  reset_rate : 1 ≤ s.rates.resetHz ∧ s.rates.resetHz ≤ 4294967295

variable {d : Draft} {given more : List (Flag × String)} {flag : Flag} {text : String}
  {value : Value} {s : Settings}

theorem exists_text (h : flag ∈ given.map Prod.fst) : ∃ text, (flag, text) ∈ given := by
  obtain ⟨⟨_, text⟩, hmem, rfl⟩ := List.mem_map.mp h
  exact ⟨text, hmem⟩

theorem collects_empty : Collects Draft.empty [] :=
  ⟨List.nodup_nil, nofun, fun flag _ => by cases flag <;> rfl⟩

theorem Collects.concat {d' : Draft} (h : Collects d given) (hflag : flag ∉ given.map Prod.fst)
    (hmeans : Means flag text value)
    (hd : ∀ other, d'.value? other = if other = flag then some value else d.value? other) :
    Collects d' (given ++ [(flag, text)]) := by
  constructor
  case distinct =>
    rw [List.map_append, List.nodup_append]
    refine ⟨h.distinct, List.nodup_singleton flag, fun other hother new hnew heq => hflag ?_⟩
    obtain rfl : new = flag := List.mem_singleton.mp hnew
    exact heq ▸ hother
  case value_eq =>
    intro other otherText hmem
    rcases List.mem_append.mp hmem with hold | hnew
    · have hne : other ≠ flag := fun heq => hflag (heq ▸ List.mem_map_of_mem hold)
      rw [hd, if_neg hne]
      exact h.value_eq other otherText hold
    · obtain ⟨rfl, rfl⟩ := Prod.mk.inj (List.mem_singleton.mp hnew)
      exact ⟨value, hmeans, by rw [hd, if_pos rfl]⟩
  case absent =>
    intro other hother
    rw [List.map_append, List.mem_append, not_or] at hother
    have hne : other ≠ flag := fun heq => hother.2 (heq ▸ List.mem_cons_self)
    rw [hd, if_neg hne]
    exact h.absent other hother.1

/-- Completing options gives a draft with their values too, unless one of them is given twice or has
a text that is no value for it. -/
theorem settleAll_cases (h : Collects d given) (more : List (Flag × String)) :
    (∃ d', settleAll d more = .ok d' ∧ Collects d' (given ++ more)) ∨
    (¬ ((given ++ more).map Prod.fst).Nodup ∧ settleAll d more = .error .repeatedOption) ∨
    (¬ Acceptable more ∧ ∃ refusal, settleAll d more = .error refusal) := by
  induction more generalizing d given with
  | nil => exact .inl ⟨d, rfl, by rwa [List.append_nil]⟩
  | cons first more ih =>
    obtain ⟨flag, text⟩ := first
    by_cases hflag : flag ∈ given.map Prod.fst
    · right; left
      obtain ⟨earlier, hmem⟩ := exists_text hflag
      obtain ⟨value, -, hvalue⟩ := h.value_eq flag earlier hmem
      constructor
      · rw [List.map_append, List.nodup_append]
        intro hnodup
        exact hnodup.2.2 _ hflag _ List.mem_cons_self rfl
      · rw [settleAll, settle_of_present hvalue]
        rfl
    · rcases settle_of_absent (h.absent flag hflag) text with
        ⟨value, d', hmeans, hsettle, hd⟩ | ⟨hnone, refusal, hsettle⟩
      · have hrest := ih (h.concat hflag hmeans hd)
        rw [settleAll, hsettle, List.append_cons]
        rcases hrest with hok | hrepeated | ⟨hbad, hrefused⟩
        · exact .inl hok
        · exact .inr (.inl hrepeated)
        · refine .inr (.inr ⟨fun hall => hbad fun other otherText hmem => ?_, hrefused⟩)
          exact hall other otherText (List.mem_cons_of_mem _ hmem)
      · right; right
        refine ⟨fun hall => ?_, refusal, ?_⟩
        · obtain ⟨value, hmeans⟩ := hall flag text List.mem_cons_self
          exact hnone value hmeans
        · rw [settleAll, hsettle]
          rfl

theorem collects_of_settleAll {d' : Draft} (h : Collects d given)
    (hd : settleAll d more = .ok d') : Collects d' (given ++ more) := by
  rcases settleAll_cases h more with ⟨d'', hok, hcollects⟩ | ⟨-, hrefused⟩ | ⟨-, refusal, hrefused⟩
  · obtain rfl := Except.ok.inj (hd.symm.trans hok)
    exact hcollects
  · exact absurd (hd.symm.trans hrefused) nofun
  · exact absurd (hd.symm.trans hrefused) nofun

theorem Collects.holds (h : Collects d given) (hs : d.finish = .ok s) : Holds given s := by
  intro flag
  have hvalue := value_of_finish hs flag
  by_cases hflag : flag ∈ given.map Prod.fst
  · obtain ⟨text, hmem⟩ := exists_text hflag
    obtain ⟨value, hmeans, hd⟩ := h.value_eq flag text hmem
    rw [hd, Option.some_or] at hvalue
    exact .inl ⟨text, hmem, Option.some.inj hvalue ▸ hmeans⟩
  · rw [h.absent flag hflag, Option.none_or] at hvalue
    exact .inr ⟨hflag, hvalue⟩

/-- A text means one value only. -/
theorem Means.unique {other : Value} (h : Means flag text value) (hother : Means flag text other) :
    value = other := by
  rw [← check_eq_ok_iff] at h hother
  exact Except.ok.inj (h.symm.trans hother)

theorem text_unique (hdistinct : (given.map Prod.fst).Nodup) {other : String}
    (h : (flag, text) ∈ given) (hother : (flag, other) ∈ given) : text = other :=
  (Prod.mk.inj (List.inj_on_of_nodup_map hdistinct h hother rfl)).2

theorem Holds.unique {s' : Settings} (hdistinct : (given.map Prod.fst).Nodup) (h : Holds given s)
    (h' : Holds given s') : s = s' := by
  apply Settings.eq_of_value
  intro flag
  rcases h flag with ⟨text, hmem, hmeans⟩ | ⟨hflag, husual⟩
  · rcases h' flag with ⟨other, hother, hmeans'⟩ | ⟨hflag', -⟩
    · obtain rfl := text_unique hdistinct hmem hother
      exact hmeans.unique hmeans'
    · exact absurd (List.mem_map_of_mem hmem) hflag'
  · rcases h' flag with ⟨other, hother, -⟩ | ⟨-, husual'⟩
    · exact absurd (List.mem_map_of_mem hother) hflag
    · exact Option.some.inj (husual.symm.trans husual')

theorem Holds.of_perm (h : Holds given s) (hperm : given.Perm more) : Holds more s := by
  intro flag
  rcases h flag with ⟨text, hmem, hmeans⟩ | ⟨hflag, husual⟩
  · exact .inl ⟨text, hperm.mem_iff.mp hmem, hmeans⟩
  · exact .inr ⟨fun hmem => hflag ((hperm.map Prod.fst).mem_iff.mpr hmem), husual⟩

theorem Complete.of_perm (h : Complete given) (hperm : given.Perm more) : Complete more :=
  ⟨(hperm.map Prod.fst).nodup h.distinct, (hperm.map Prod.fst).mem_iff.mp h.rom_mem,
    fun flag text hmem => h.acceptable flag text (hperm.mem_iff.mpr hmem)⟩

theorem Complete.settles (h : Complete given) :
    ∃ s, (settleAll Draft.empty given).bind Draft.finish = .ok s ∧ Holds given s := by
  rcases settleAll_cases collects_empty given with
    ⟨d, hd, hcollects⟩ | ⟨hrepeated, -⟩ | ⟨hbad, -⟩
  · obtain ⟨text, hmem⟩ := exists_text h.rom_mem
    obtain ⟨value, -, hvalue⟩ := hcollects.value_eq .rom text hmem
    obtain ⟨s, hs⟩ := finish_of_rom hvalue
    rw [hd]
    exact ⟨s, hs, hcollects.holds hs⟩
  · exact absurd h.distinct hrepeated
  · exact absurd h.acceptable hbad

/-- Arguments give settings just if they are options that are complete, written out, and the
settings are what these mean. -/
theorem parse_eq_ok_iff {arguments : List String} :
    parse arguments = .ok s ↔
      ∃ (os : List Occurrence) (ending : List String), (∀ o ∈ os, o.Writable) ∧ Ends ending ∧
        arguments = os.flatMap Occurrence.arguments ++ ending ∧
        Complete (os.map Occurrence.given) ∧ Holds (os.map Occurrence.given) s := by
  rw [parse_eq_ok_iff_yields]
  constructor
  · rintro ⟨os, ending, hos, hending, harguments, hs⟩
    obtain ⟨d, hd, hfinish⟩ := bind_eq_ok hs
    have hcollects := collects_of_settleAll collects_empty hd
    have hholds := hcollects.holds hfinish
    refine ⟨os, ending, hos, hending, harguments, ⟨hcollects.distinct, ?_, ?_⟩, hholds⟩
    · rcases hholds .rom with ⟨text, hmem, -⟩ | ⟨-, husual⟩
      · exact List.mem_map_of_mem hmem
      · contradiction
    · intro flag text hmem
      obtain ⟨value, hmeans, -⟩ := hcollects.value_eq flag text hmem
      exact ⟨value, hmeans⟩
  · rintro ⟨os, ending, hos, hending, harguments, hcomplete, hholds⟩
    obtain ⟨s', hs', hholds'⟩ := hcomplete.settles
    obtain rfl := hholds.unique hcomplete.distinct hholds'
    exact ⟨os, ending, hos, hending, harguments, hs'⟩

theorem parse_of_repeated {os : List Occurrence} (hos : ∀ o ∈ os, o.Writable)
    (hacceptable : Acceptable (os.map Occurrence.given))
    (hrepeated : ¬ ((os.map Occurrence.given).map Prod.fst).Nodup) :
    parse (os.flatMap Occurrence.arguments) = .error .repeatedOption := by
  rw [← List.append_nil (os.flatMap _), parse_occurrences hos (.inl rfl)]
  rcases settleAll_cases collects_empty (os.map Occurrence.given) with
    ⟨d, -, hcollects⟩ | ⟨-, hrefused⟩ | ⟨hbad, -⟩
  · exact absurd hcollects.distinct hrepeated
  · rw [hrefused]
    rfl
  · exact absurd hacceptable hbad

theorem Holds.rate_bounds (h : Holds given s) (flag : Flag) {hz : Nat}
    (hrate : s.value flag = .rate hz) :
    1 ≤ hz ∧ hz ≤ 4294967295 := by
  rcases h flag with ⟨text, -, hmeans⟩ | ⟨-, husual⟩
  · rw [hrate] at hmeans
    cases flag with
    | rom | logFile => exact absurd hmeans.2 nofun
    | clockHz | resetHz =>
      obtain ⟨_, -, hpos, hle, heq⟩ := hmeans
      exact Value.rate.inj heq ▸ ⟨hpos, hle⟩
  · rw [hrate] at husual
    cases flag with
    | rom | logFile => exact absurd husual nofun
    | clockHz | resetHz =>
      obtain rfl := Value.rate.inj (Option.some.inj husual)
      decide

theorem Holds.rom_mem (h : Holds given s) : (.rom, s.rom) ∈ given ∧ s.rom ≠ "" := by
  rcases h .rom with ⟨text, hmem, hne, hvalue⟩ | ⟨-, husual⟩
  · obtain rfl := Value.path.inj hvalue
    exact ⟨hmem, hne⟩
  · contradiction

theorem written_of_mem {o : Occurrence} {os : List Occurrence} (h : o ∈ os) :
    optionText o.flag (some o.text) ∈ os.flatMap Occurrence.arguments ∨
      [optionText o.flag none, o.text] <:+: os.flatMap Occurrence.arguments := by
  obtain ⟨before, after, rfl⟩ := List.append_of_mem h
  obtain ⟨flag, text, attached⟩ := o
  cases attached with
  | true => exact .inl (List.mem_flatMap.mpr ⟨_, h, List.mem_cons_self⟩)
  | false =>
    right
    rw [List.flatMap_append, List.flatMap_cons, ← List.append_assoc]
    exact ⟨_, _, rfl⟩

theorem runnable_of_parse {arguments : List String} (h : parse arguments = .ok s) :
    Runnable arguments s := by
  obtain ⟨os, ending, -, -, rfl, -, hholds⟩ := parse_eq_ok_iff.mp h
  obtain ⟨hrom, hne⟩ := hholds.rom_mem
  obtain ⟨⟨flag, text, attached⟩, ho, hgiven⟩ := List.mem_map.mp hrom
  obtain ⟨rfl, rfl⟩ := Prod.mk.inj hgiven
  refine ⟨?_, hne, hholds.rate_bounds .clockHz rfl, hholds.rate_bounds .resetHz rfl⟩
  rcases written_of_mem ho with hmem | htogether
  · exact .inl (List.mem_append_left ending hmem)
  · exact .inr (htogether.trans (List.prefix_append _ ending).isInfix)

/-- Neither the order of the options nor their spelling matters: complete options give the same
settings however they are written, an option that is given twice is always refused for that, and
whatever is read can be run. -/
theorem order_and_spelling_do_not_matter :
    (∀ given, Complete given → ∃ s, Holds given s ∧
      ∀ arguments, Spells given arguments → parse arguments = .ok s) ∧
    (∀ given, Acceptable given → ¬ (given.map Prod.fst).Nodup →
      ∀ arguments, Spells given arguments → parse arguments = .error .repeatedOption) ∧
    ∀ arguments s, parse arguments = .ok s → Runnable arguments s := by
  refine ⟨fun given hcomplete => ?_, ?_, fun arguments s => runnable_of_parse⟩
  · obtain ⟨s, -, hholds⟩ := hcomplete.settles
    refine ⟨s, hholds, ?_⟩
    rintro arguments ⟨os, hperm, hos, rfl⟩
    exact parse_eq_ok_iff.mpr ⟨os, [], hos, .inl rfl, (List.append_nil _).symm,
      hcomplete.of_perm hperm.symm, hholds.of_perm hperm.symm⟩
  · rintro given hacceptable hrepeated arguments ⟨os, hperm, hos, rfl⟩
    refine parse_of_repeated hos (fun flag text hmem => ?_) fun hdistinct => ?_
    · exact hacceptable flag text (hperm.mem_iff.mp hmem)
    · exact hrepeated ((hperm.map Prod.fst).nodup hdistinct)

/-- Three options in two orders and spellings, with a rate behind a plus sign, a path that is a dash
and one that begins with two; and the program given twice. -/
theorem order_and_spelling_do_not_matter_three_options :
    let first := ["--log-file=--", "--clock-hz", "+007", "--rom", "-"]
    let second := ["--rom=-", "--log-file=--", "--clock-hz=+007"]
    parse first = .ok ⟨"-", 7, 6, "--"⟩ ∧ parse second = parse first ∧
      parse (first ++ second) = .error .repeatedOption ∧ Runnable first ⟨"-", 7, 6, "--"⟩ := by
  intro first second
  obtain ⟨hsame, hrepeated, hrunnable⟩ := order_and_spelling_do_not_matter
  let given : List (Flag × String) := [(.rom, "-"), (.logFile, "--"), (.clockHz, "+007")]
  have hnumeral : Numeral "+007".toList 7 := by
    have hvalue : placeValue ['0', '0', '7'] = 7 := by decide
    have hplus : Numeral "+007".toList (placeValue ['0', '0', '7']) := .plus (by decide)
    rwa [hvalue] at hplus
  have hrom : Means .rom "-" (.path "-") := ⟨by decide, rfl⟩
  have hlog : Means .logFile "--" (.path "--") := ⟨by decide, rfl⟩
  have hclock : Means .clockHz "+007" (.rate 7) := ⟨7, hnumeral, by decide, by decide, rfl⟩
  have hacceptable : Acceptable given := by
    intro flag text hmem
    simp only [given, List.mem_cons, List.not_mem_nil, or_false] at hmem
    rcases hmem with h | h | h <;> obtain ⟨rfl, rfl⟩ := Prod.mk.inj h
    exacts [⟨_, hrom⟩, ⟨_, hlog⟩, ⟨_, hclock⟩]
  have htwice : Acceptable (given ++ given) := fun flag text hmem =>
    (List.mem_append.mp hmem).elim (hacceptable flag text) (hacceptable flag text)
  let written : List Occurrence :=
    [⟨.logFile, "--", true⟩, ⟨.clockHz, "+007", false⟩, ⟨.rom, "-", false⟩]
  let rewritten : List Occurrence :=
    [⟨.rom, "-", true⟩, ⟨.logFile, "--", true⟩, ⟨.clockHz, "+007", true⟩]
  obtain ⟨s, -, hs⟩ := hsame given ⟨by decide, by decide, hacceptable⟩
  have hfirst := hs first ⟨written, by decide, by decide, by decide⟩
  have hsecond := hs second ⟨rewritten, by decide, by decide, by decide⟩
  have hparse : parse first = .ok ⟨"-", 7, 6, "--"⟩ := by decide
  refine ⟨hparse, hsecond.trans hfirst.symm, ?_, hrunnable first _ hparse⟩
  exact hrepeated (given ++ given) htwice (by decide) (first ++ second)
    ⟨written ++ rewritten, by decide, by decide, by decide⟩

end Chip8.CommandLine
