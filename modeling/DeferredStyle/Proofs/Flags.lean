import DeferredStyle.Proofs.Words
import Mathlib.Data.List.Basic

/-!
# What a command line says

The words of a command line set its options and, behind the name of the command, what the command
works on.  Options stand on both sides of the name, and of the uses of one option those behind it
count, if there are any.

* `readPair_eq_ok_iff` — what a pair is.
* `Options.Reads` — options are the values of their uses, and `Options.Reads.merge`, on both sides
  of the command.
* `exists_words` — the words of a command line; `stylesheet_words`, of the stylesheet command.
* `eq_of_lenient_eq` — what the words say but for the flag.
-/

set_option autoImplicit false

namespace DeferredStyle

/-! ## Pairs -/

/-- A text is cut at the first separator. -/
theorem Text.cutOnce_eq_some_iff {sep : Char} {cs before after : List Char} :
    cutOnce sep cs = some (before, after) ↔ cs = before ++ sep :: after ∧ sep ∉ before := by
  induction cs generalizing before with
  | nil => simp [cutOnce]
  | cons c cs ih =>
    rw [cutOnce]
    by_cases hc : c = sep
    · rw [if_pos hc]
      cases before <;> simp_all [eq_comm]
    · rw [if_neg hc, Option.map_eq_some_iff]
      cases before with
      | nil => simp [hc]
      | cons d before =>
        simp only [Prod.exists, Prod.mk.injEq, List.cons.injEq, List.cons_append, List.mem_cons,
          not_or]
        constructor
        · rintro ⟨_, _, hcut, ⟨rfl, rfl⟩, rfl⟩
          obtain ⟨hcs, hnone⟩ := ih.mp hcut
          exact ⟨⟨rfl, hcs⟩, Ne.symm hc, hnone⟩
        · rintro ⟨⟨rfl, hcs⟩, -, hnone⟩
          exact ⟨_, _, ih.mpr ⟨hcs, hnone⟩, ⟨rfl, rfl⟩, rfl⟩

namespace CommandLine

/-- A pair is a name, an equals sign and a value.  The name is not empty and has no equals sign. -/
theorem readPair_eq_ok_iff {text name value : String} :
    readPair text = .ok (name, value) ↔
      text = name ++ "=" ++ value ∧ name ≠ "" ∧ '=' ∉ name.toList := by
  have hcut : Text.cutOnce '=' text.toList = some (name.toList, value.toList) ↔
      text = name ++ "=" ++ value ∧ '=' ∉ name.toList := by
    rw [Text.cutOnce_eq_some_iff, ← String.toList_inj]
    simp
  constructor
  · intro h
    rw [readPair] at h
    split at h
    · rename_i before after hbefore
      split at h <;> cases h
      rename_i hempty
      rw [String.toList_ofList, String.toList_ofList] at hcut
      obtain ⟨htext, hnone⟩ := hcut.mp hbefore
      refine ⟨htext, fun hname => hempty ?_, by rwa [String.toList_ofList]⟩
      rw [← String.toList_ofList (l := before), hname]
      rfl
    · cases h
  · rintro ⟨htext, hname, hnone⟩
    have hempty : name.toList.isEmpty = false := by
      rw [List.isEmpty_eq_false_iff, ne_eq, String.toList_eq_nil_iff]
      exact hname
    rw [readPair, hcut.mpr ⟨htext, hnone⟩]
    simp [hempty, String.ofList_toList]

/-! ## What words do -/

/-- Options are the values of the uses of each option, in order. -/
structure Options.Reads (options : Options) (used : GeneralOption → List String) : Prop where
  config : used .config = options.config.toList
  platform : (used .platform).map readPlatform = options.platform.toList.map .ok
  runtimeVersion : (used .runtimeVersion).map readVersion = options.runtimeVersion.toList.map .ok
  attributes : (used .attr).map readPair = options.attributes.map .ok
  environment : (used .env).map readPair = options.environment.map .ok

theorem Options.reads_none : Options.none.Reads fun _ => [] :=
  ⟨rfl, rfl, rfl, rfl, rfl⟩

theorem single_eq_ok {α β : Type} {option : GeneralOption} {old : Option β}
    {value : Except UsageError α} {a : α} (h : single option old.isSome value = .ok a) :
    old = none ∧ value = .ok a := by
  cases old with
  | none => exact ⟨rfl, h⟩
  | some b => cases h

theorem checked_eq_ok_iff {α : Type} {option : GeneralOption} {text : String}
    {value : Except String α} {a : α} :
    checked option text value = .ok a ↔ value = .ok a := by
  cases value <;> simp [checked]

theorem readFileName_eq_ok {shown text file : String} (h : readFileName shown text = .ok file) :
    text = file := by
  unfold readFileName at h
  split at h <;> cases h
  rfl

/-- An option is the values of its uses, in order. -/
def Options.ReadsOption (options : Options) (texts : List String) : GeneralOption → Prop
  | .config => texts = options.config.toList
  | .platform => texts.map readPlatform = options.platform.toList.map .ok
  | .runtimeVersion => texts.map readVersion = options.runtimeVersion.toList.map .ok
  | .attr => texts.map readPair = options.attributes.map .ok
  | .env => texts.map readPair = options.environment.map .ok

theorem Options.reads_iff {options : Options} {used : GeneralOption → List String} :
    options.Reads used ↔ ∀ option, options.ReadsOption (used option) option := by
  constructor
  · intro h option
    cases option with
    | config => exact h.config
    | platform => exact h.platform
    | runtimeVersion => exact h.runtimeVersion
    | attr => exact h.attributes
    | env => exact h.environment
  · intro h
    exact ⟨h .config, h .platform, h .runtimeVersion, h .attr, h .env⟩

section Uses

variable {α : Type} {read : String → Except String α} {option : GeneralOption} {text : String}
  {texts : List String} {a : α}

/-- The value of one more use goes behind the others. -/
theorem map_read_append {as : List α} (hreads : texts.map read = as.map .ok)
    (h : checked option text (read text) = .ok a) :
    (texts ++ [text]).map read = (as ++ [a]).map .ok := by
  rw [List.map_append, List.map_append, hreads, List.map_singleton, checked_eq_ok_iff.mp h]
  rfl

/-- The value of an option that must not be used twice is that of its first use. -/
theorem map_read_append_single {old : Option α} (hreads : texts.map read = old.toList.map .ok)
    (h : single option old.isSome (checked option text (read text)) = .ok a) :
    (texts ++ [text]).map read = (some a).toList.map .ok := by
  obtain ⟨hunused, hchecked⟩ := single_eq_ok h
  have hnew := map_read_append hreads hchecked
  rw [hunused] at hnew
  exact hnew

end Uses

section Set

variable {options next : Options} {option : GeneralOption} {text : String}
  (h : options.set option text = .ok next)

include h

/-- One more use of an option adds to the uses of the option. -/
theorem Options.readsOption_set {texts : List String}
    (hreads : options.ReadsOption texts option) :
    next.ReadsOption (texts ++ [text]) option := by
  cases option with
  | config =>
    obtain ⟨file, hfile, rfl⟩ := map_eq_ok_iff.mp h
    obtain ⟨hunused, hread⟩ := single_eq_ok hfile
    obtain rfl := readFileName_eq_ok hread
    have hnone : texts = options.config.toList := hreads
    rw [hnone, hunused]
    rfl
  | platform =>
    obtain ⟨platform, hvalue, rfl⟩ := map_eq_ok_iff.mp h
    exact map_read_append_single hreads hvalue
  | runtimeVersion =>
    obtain ⟨version, hvalue, rfl⟩ := map_eq_ok_iff.mp h
    exact map_read_append_single hreads hvalue
  | attr =>
    obtain ⟨pair, hvalue, rfl⟩ := map_eq_ok_iff.mp h
    exact map_read_append hreads hvalue
  | env =>
    obtain ⟨pair, hvalue, rfl⟩ := map_eq_ok_iff.mp h
    exact map_read_append hreads hvalue

/-- One more use of an option leaves the others as they are. -/
theorem Options.readsOption_set_of_ne {other : GeneralOption} {texts : List String}
    (hne : other ≠ option) (hreads : options.ReadsOption texts other) :
    next.ReadsOption texts other := by
  cases option
  all_goals
    obtain ⟨_, -, rfl⟩ := map_eq_ok_iff.mp h
    cases other
    all_goals first | exact hreads | exact absurd rfl hne

/-- **One more use of an option** is one more value of this option. -/
theorem Options.Reads.set {used : GeneralOption → List String} (hreads : options.Reads used) :
    next.Reads fun name => used name ++ uses (.general name) [.option (.general option) text] := by
  refine reads_iff.mpr fun name => ?_
  have hold := reads_iff.mp hreads name
  by_cases hname : name = option
  · subst hname
    have huse : uses (.general name) [.option (.general name) text] = [text] := by simp [uses]
    rw [huse]
    exact readsOption_set h hold
  · have hnone : uses (.general name) [.option (.general option) text] = [] := by
      simp [uses, Ne.symm hname]
    rw [hnone, List.append_nil]
    exact readsOption_set_of_ne h hname hold

end Set

/-- A word sets an option or leaves them all. -/
theorem Side.reads_read {side next : Side} {w : Word} {used : GeneralOption → List String}
    (hreads : side.options.Reads used) (h : side.read w = .ok next) :
    next.options.Reads fun name => used name ++ uses (.general name) [w] := by
  cases w with
  | option name text =>
    cases name with
    | general option =>
      obtain ⟨options, hset, rfl⟩ := map_eq_ok_iff.mp h
      exact .set hset hreads
    | className =>
      cases h
      simpa [uses] using hreads
  | strict =>
    rw [read, setStrict] at h
    split at h <;> cases h
    simpa [uses] using hreads
  | operand text =>
    obtain ⟨stage, -, rfl⟩ := map_eq_ok_iff.mp h
    simpa [uses] using hreads

/-- The words of one side of the command set its options. -/
theorem Side.reads_readAll {side final : Side} {ws : List Word} (hside : side.options = .none)
    (h : side.readAll ws = .ok final) :
    final.options.Reads fun name => uses (.general name) ws := by
  refine readAll_invariant
    (P := fun ws middle => middle.options.Reads fun name => uses (.general name) ws) h ?_ ?_
  · rw [hside]
    exact Options.reads_none
  · intro front w middle next hmiddle hw
    simp only [uses_append]
    exact reads_read hmiddle hw

theorem Side.stylesheet_read {side next : Side} {w : Word} {files classes : List String}
    {isStrict : Bool} (hstage : side.stage = .stylesheet files classes isStrict)
    (h : side.read w = .ok next) :
    next.stage = .stylesheet (files ++ operands [w]) (classes ++ uses .className [w])
      (isStrict || [w].contains .strict) := by
  cases w with
  | option name text =>
    cases name with
    | general option =>
      obtain ⟨options, -, rfl⟩ := map_eq_ok_iff.mp h
      simpa [operands, uses] using hstage
    | className =>
      cases h
      simp [hstage, Stage.addClass, operands, uses]
  | strict =>
    rw [read, setStrict, hstage] at h
    cases isStrict with
    | true => cases h
    | false =>
      cases h
      simp [operands, uses]
  | operand text =>
    obtain ⟨stage, hadded, rfl⟩ := map_eq_ok_iff.mp h
    rw [hstage] at hadded
    obtain ⟨file, hfile, rfl⟩ := map_eq_ok_iff.mp hadded
    obtain rfl := readFileName_eq_ok hfile
    simp [operands, uses]

/-- The words behind the name of the stylesheet command are its file, its classes and its flag. -/
theorem Side.stylesheet_readAll {side final : Side} {ws : List Word}
    (hstage : side.stage = .stylesheet [] [] false) (h : side.readAll ws = .ok final) :
    final.stage = .stylesheet (operands ws) (uses .className ws) (ws.contains .strict) := by
  refine readAll_invariant (P := fun ws middle =>
    middle.stage = .stylesheet (operands ws) (uses .className ws) (ws.contains .strict)) h hstage ?_
  intro front w middle next hmiddle hw
  rw [stylesheet_read hmiddle hw, operands_append, uses_append]
  simp

/-! ## Both sides of the command -/

/-- The uses of an option that count: those behind the command, if there are any. -/
def counted (front behind : List Word) (option : GeneralOption) : List String :=
  if uses (.general option) behind = [] then uses (.general option) front
  else uses (.general option) behind

/-- What is read on both sides counts as its uses do. -/
theorem map_counted {α β γ : Type} {f : α → γ} {g : β → γ} {front behind : List α}
    {first second : List β} (hfront : front.map f = first.map g)
    (hbehind : behind.map f = second.map g) :
    (if behind = [] then front else behind).map f =
      (if second = [] then first else second).map g := by
  have hnone : behind = [] ↔ second = [] := by
    rw [← List.map_eq_nil_iff (f := f), hbehind, List.map_eq_nil_iff]
  by_cases hempty : behind = []
  · rw [if_pos hempty, if_pos (hnone.mp hempty), hfront]
  · rw [if_neg hempty, if_neg fun h => hempty (hnone.mpr h), hbehind]

theorem toList_or {α : Type} (a b : Option α) :
    (a.or b).toList = if a.toList = [] then b.toList else a.toList := by
  cases a <;> simp

/-- **Of the uses of an option those behind the command count**, if there are any. -/
theorem Options.Reads.merge {front behind : Options} {frontWords behindWords : List Word}
    (hfront : front.Reads fun name => uses (.general name) frontWords)
    (hbehind : behind.Reads fun name => uses (.general name) behindWords) :
    (front.merge behind).Reads (counted frontWords behindWords) := by
  constructor
  · rw [Options.merge, toList_or, ← hfront.config, ← hbehind.config]
    rfl
  · rw [Options.merge, toList_or]
    exact map_counted hfront.platform hbehind.platform
  · rw [Options.merge, toList_or]
    exact map_counted hfront.runtimeVersion hbehind.runtimeVersion
  · simp only [Options.merge, List.isEmpty_iff]
    exact map_counted hfront.attributes hbehind.attributes
  · simp only [Options.merge, List.isEmpty_iff]
    exact map_counted hfront.environment hbehind.environment

/-- A command line that can be understood: options, the name of the command, and the words of the
command. -/
theorem exists_words {arguments : List String} {options : Options} {command : Command}
    (h : Invocation.ofArguments arguments = .ok ⟨options, command⟩) :
    ∃ front name stage behind final, words arguments = front ++ .operand name :: behind ∧
      operands front = [] ∧ Stage.ofCommand? name = some stage ∧
      options.Reads (counted front behind) ∧
      (Side.behind stage).readAll behind = .ok final ∧ final.stage.command = .ok command := by
  obtain ⟨⟨side, named⟩, hreached, hrest⟩ := bind_eq_ok_iff.mp h
  cases named with
  | none => cases hrest
  | some named =>
    obtain ⟨stage, rest⟩ := named
    obtain ⟨⟨behindOptions, given⟩, hcommand, hrest⟩ := bind_eq_ok_iff.mp hrest
    obtain ⟨frontFinal, hfront, hmerged⟩ := bind_eq_ok_iff.mp hrest
    cases hmerged
    obtain ⟨⟨side', named'⟩, hreached', hrest⟩ := bind_eq_ok_iff.mp hcommand
    obtain ⟨final, hfinal, hrest⟩ := bind_eq_ok_iff.mp hrest
    obtain ⟨given', hgiven, hoptions⟩ := bind_eq_ok_iff.mp hrest
    cases hoptions
    obtain ⟨front, _, hwords, hread, hstops, hnone, -⟩ := reads_words hreached hfront fun _ => rfl
    obtain ⟨behind, _, hwords', hread', hstops', -, hend⟩ :=
      reads_words hreached' hfinal fun _ => rfl
    cases hstops with
    | @command name stage rest hstage =>
      have hbehind : stage ≠ .start := by
        rw [ne_eq, ← Stage.name?_eq_none_iff, Stage.name?_of_ofCommand? hstage]
        nofun
      obtain rfl : named' = none := hend hbehind
      cases hstops'
      rw [List.append_nil] at hwords'
      refine ⟨front, name, stage, behind, final, ?_, hnone rfl, hstage, ?_, hread', hgiven⟩
      · have hrest : words rest = behind := hwords'
        rw [← hrest, ← hwords]
        rfl
      · exact .merge (Side.reads_readAll rfl hread) (Side.reads_readAll rfl hread')

theorem Stage.eq_of_command {stage : Stage} {file : String} {classes : List String}
    {isStrict : Bool} (h : stage.command = .ok (.stylesheet file classes isStrict)) :
    stage = .stylesheet [file] classes isStrict := by
  unfold command at h
  split at h <;> cases h
  rfl

/-- **The words of a command line of the stylesheet command.**  The first operand names the command.
In front of it and behind it are options; behind it are also the file, the classes and the flag. -/
theorem stylesheet_words {arguments : List String} {options : Options} {file : String}
    {classes : List String} {isStrict : Bool}
    (h : Invocation.ofArguments arguments = .ok ⟨options, .stylesheet file classes isStrict⟩) :
    ∃ front behind, words arguments = front ++ .operand "stylesheet" :: behind ∧
      operands front = [] ∧ operands behind = [file] ∧ uses .className behind = classes ∧
      (isStrict = true ↔ .strict ∈ behind) ∧ options.Reads (counted front behind) := by
  obtain ⟨front, name, stage, behind, final, hwords, hfront, hstage, hreads, hread, hgiven⟩ :=
    exists_words h
  have hname : final.stage.name? = some name :=
    (Side.name?_readAll hread).trans (Stage.name?_of_ofCommand? hstage)
  have hfinal := Stage.eq_of_command hgiven
  rw [hfinal] at hname
  cases hname
  cases hstage
  have hbehind := Side.stylesheet_readAll rfl hread
  rw [hfinal] at hbehind
  obtain ⟨hfile, hclasses, hstrict⟩ := Stage.stylesheet.inj hbehind
  refine ⟨front, behind, hwords, hfront, hfile.symm, hclasses.symm, ?_, hreads⟩
  rw [hstrict, List.contains_iff_mem]

/-! ## Command lines that say the same -/

/-- Words without the flag. -/
def lenient (ws : List Word) : List Word := ws.filter (· ≠ .strict)

theorem uses_lenient (name : OptionName) (ws : List Word) :
    uses name (lenient ws) = uses name ws := by
  rw [uses, lenient, List.filterMap_filter]
  refine List.filterMap_congr fun w _ => ?_
  cases w <;> rfl

theorem operands_lenient (ws : List Word) : operands (lenient ws) = operands ws := by
  rw [operands, lenient, List.filterMap_filter]
  refine List.filterMap_congr fun w _ => ?_
  cases w <;> rfl

/-- The first operand is at one place. -/
theorem eq_of_first_operand {front front' behind behind' : List Word} (text : String)
    (hfront : operands front = []) (hfront' : operands front' = [])
    (h : front ++ .operand text :: behind = front' ++ .operand text :: behind') :
    front = front' ∧ behind = behind' := by
  induction front generalizing front' with
  | nil =>
    cases front' with
    | nil => exact ⟨rfl, (List.cons.inj h).2⟩
    | cons w front' =>
      obtain ⟨rfl, -⟩ := List.cons.inj h
      cases hfront'
  | cons w front ih =>
    cases front' with
    | nil =>
      obtain ⟨rfl, -⟩ := List.cons.inj h
      cases hfront
    | cons w' front' =>
      obtain ⟨rfl, htail⟩ := List.cons.inj h
      have hrest : operands front = [] := (List.append_eq_nil_iff.mp
        ((operands_append [w] front).symm.trans hfront)).2
      have hrest' : operands front' = [] := (List.append_eq_nil_iff.mp
        ((operands_append [w] front').symm.trans hfront')).2
      obtain ⟨rfl, rfl⟩ := ih hrest hrest' htail
      exact ⟨rfl, rfl⟩

theorem Options.Reads.unique {options options' : Options} {used : GeneralOption → List String}
    (h : options.Reads used) (h' : options'.Reads used) : options' = options := by
  have hlist {α : Type} {a b : Option α} (hab : a.toList = b.toList) : a = b := by
    rw [← Option.head?_toList (o := a), hab, Option.head?_toList]
  have hok {α : Type} {as bs : List α}
      (hab : as.map (Except.ok : α → Except String α) = bs.map .ok) : as = bs :=
    Function.Injective.list_map (fun _ _ => Except.ok.inj) hab
  obtain ⟨config, platform, version, attributes, environment⟩ := options
  obtain ⟨config', platform', version', attributes', environment'⟩ := options'
  obtain rfl : config' = config := hlist (h'.config.symm.trans h.config)
  obtain rfl : platform' = platform := hlist (hok (h'.platform.symm.trans h.platform))
  obtain rfl : version' = version := hlist (hok (h'.runtimeVersion.symm.trans h.runtimeVersion))
  obtain rfl : attributes' = attributes := hok (h'.attributes.symm.trans h.attributes)
  obtain rfl : environment' = environment := hok (h'.environment.symm.trans h.environment)
  rfl

/-- **Words but for the flag say what to do but for the flag.** -/
theorem eq_of_lenient_eq {arguments arguments' : List String} {options options' : Options}
    {file file' : String} {classes classes' : List String} {isStrict isStrict' : Bool}
    (h : Invocation.ofArguments arguments = .ok ⟨options, .stylesheet file classes isStrict⟩)
    (h' : Invocation.ofArguments arguments' = .ok ⟨options', .stylesheet file' classes' isStrict'⟩)
    (hwords : lenient (words arguments') = lenient (words arguments)) :
    options' = options ∧ file' = file ∧ classes' = classes := by
  obtain ⟨front, behind, hline, hfront, hfile, hclasses, -, hreads⟩ := stylesheet_words h
  obtain ⟨front', behind', hline', hfront', hfile', hclasses', -, hreads'⟩ := stylesheet_words h'
  rw [hline, hline'] at hwords
  have hsides : lenient front' = lenient front ∧ lenient behind' = lenient behind := by
    refine eq_of_first_operand "stylesheet" ((operands_lenient _).trans hfront')
      ((operands_lenient _).trans hfront) ?_
    rw [lenient, List.filter_append, lenient, List.filter_append] at hwords
    exact hwords
  obtain ⟨hfronts, hbehinds⟩ := hsides
  have hcounted : counted front' behind' = counted front behind := by
    funext option
    rw [counted, counted, ← uses_lenient _ front', ← uses_lenient _ behind', hfronts, hbehinds,
      uses_lenient, uses_lenient]
  rw [hcounted] at hreads'
  refine ⟨hreads.unique hreads', ?_, ?_⟩
  · rw [← operands_lenient, hbehinds, operands_lenient, hfile] at hfile'
    exact (List.cons.inj hfile').1.symm
  · rw [← hclasses, ← hclasses', ← uses_lenient, hbehinds, uses_lenient]

end CommandLine

end DeferredStyle
