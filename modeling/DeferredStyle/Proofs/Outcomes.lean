import DeferredStyle.Proofs.ClassLists
import DeferredStyle.Proofs.Flags
import DeferredStyle.Proofs.Layers
import DeferredStyle.Proofs.Numbering

/-!
# Outcomes of the stylesheet command

The stylesheet command writes all that was asked for or nothing, and its exit status says whether
all went well.

* `Blocked` — why nothing can be written.
* `Printed` — what is written, and with which exit status.
* `stylesheet_outcomes` — the outcome of every command line of the stylesheet command that can be
  understood, with the settings it works with.
* `front_pairs_dropped` — pairs in front of the command that do not count, since pairs of other
  names stand behind it.
-/

set_option autoImplicit false

namespace DeferredStyle.CommandLine

/-! ## Classes -/

section Classes

variable {sheet : Stylesheet} {classes : List String}

/-- The class is named, or no class is named and it is a class of the stylesheet. -/
def Selects (classes : List String) (sheet : Stylesheet) (name : String) : Prop :=
  name ∈ classes ∨ classes = [] ∧ sheet.class? name ≠ none

theorem class?_ne_none_iff {name : String} :
    sheet.class? name ≠ none ↔ name ∈ sheet.classNames := by
  have hkeys := Table.nodup_keys_of_increasing sheet.classes.increasing
  rw [Option.ne_none_iff_exists', Stylesheet.classNames, Table.keys, List.mem_map]
  constructor
  · rintro ⟨rs, hclass⟩
    exact ⟨(name, rs), (lookup?_eq_some_iff_mem hkeys).mp hclass, rfl⟩
  · rintro ⟨⟨name, rs⟩, hmem, rfl⟩
    exact ⟨rs, (lookup?_eq_some_iff_mem hkeys).mpr hmem⟩

theorem mem_selectedClasses {name : String} :
    name ∈ selectedClasses classes sheet ↔ Selects classes sheet name := by
  rw [selectedClasses, Selects, class?_ne_none_iff]
  cases classes <;> simp

/-- All classes are known, and are resolved. -/
theorem firstUnknown_of_known (h : ∀ name ∈ classes, sheet.class? name ≠ none) :
    firstUnknown sheet classes = (classes, none) := by
  induction classes with
  | nil => rfl
  | cons name classes ih =>
    obtain ⟨hname, hclasses⟩ := List.forall_mem_cons.mp h
    have hcontains : sheet.classes.contains name = true := Option.isSome_iff_ne_none.mpr hname
    rw [firstUnknown, if_pos hcontains, ih hclasses]

/-- A class is unknown, and one is reported. -/
theorem firstUnknown_of_unknown (h : ∃ name ∈ classes, sheet.class? name = none) :
    ∃ known name, firstUnknown sheet classes = (known, some name) := by
  induction classes with
  | nil =>
    obtain ⟨name, hname, -⟩ := h
    cases hname
  | cons own classes ih =>
    rw [firstUnknown]
    by_cases hown : sheet.classes.contains own = true
    · obtain ⟨name, hname, hunknown⟩ := h
      have hne : name ≠ own := by
        rintro rfl
        exact Option.isSome_iff_ne_none.mp hown hunknown
      obtain ⟨known, reported, hrest⟩ :=
        ih ⟨name, (List.mem_cons.mp hname).resolve_left hne, hunknown⟩
      rw [if_pos hown, hrest]
      exact ⟨own :: known, reported, rfl⟩
    · rw [if_neg hown]
      exact ⟨[], own, rfl⟩

theorem lastValue?_map {α : Type} (f : String → α) (names : List String) (name : String) :
    lastValue? name (names.map fun own => (own, f own)) =
      if name ∈ names then some (f name) else none := by
  induction names with
  | nil => rfl
  | cons own names ih =>
    rw [List.map_cons, lastValue?_cons, ih]
    by_cases hown : own = name
    · subst hown
      by_cases hmem : own ∈ names <;> simp [hmem]
    · by_cases hmem : name ∈ names <;> simp [hmem, hown, Ne.symm hown]

/-- **Every class that is resolved has its modifiers**, however often it is named. -/
theorem find?_resolvedClasses (sheet : Stylesheet) (context : Context) (classes : List String)
    (name : String) :
    (resolvedClasses sheet context classes).find? name =
      if name ∈ classes then some (sheet.kept context name) else none := by
  rw [resolvedClasses, Table.find?_ofList]
  exact lastValue?_map (sheet.kept context) classes name

/-- The members of the JSON object of classes. -/
theorem classesJson_members (sheet : Stylesheet) (context : Context) (classes : List String) :
    ∃ members, classesJson (resolvedClasses sheet context classes) = .object members ∧
      Increasing members ∧ ∀ name json, (name, json) ∈ members ↔
        name ∈ classes ∧ json = .array ((sheet.kept context name).map Modifier.toJson) := by
  refine ⟨_, rfl, Table.increasing _, fun name json => ?_⟩
  have hkeys := Table.nodup_keys_of_increasing (resolvedClasses sheet context classes).increasing
  have hentry (own : String) (modifiers : List Modifier) :
      (own, modifiers) ∈ (resolvedClasses sheet context classes).entries ↔
        own ∈ classes ∧ sheet.kept context own = modifiers := by
    rw [← lookup?_eq_some_iff_mem hkeys, ← Table.find?, find?_resolvedClasses]
    simp
  simp only [Table.map, List.mem_map, Prod.exists, Prod.mk.injEq, hentry]
  constructor
  · rintro ⟨_, _, ⟨hname, rfl⟩, rfl, rfl⟩
    exact ⟨hname, rfl⟩
  · rintro ⟨hname, rfl⟩
    exact ⟨name, _, ⟨hname, rfl⟩, rfl, rfl⟩

/-- Nothing is to be warned of if all modifiers of the classes have values. -/
theorem classWarnings_eq_nil_iff {context : Context} :
    classWarnings sheet context classes = [] ↔
      ∀ name ∈ classes, ∀ e, .error e ∉ sheet.resolveClass name context := by
  rw [classWarnings, List.flatMap_eq_nil_iff]
  refine forall₂_congr fun name _ => ?_
  rw [unresolvedTexts_eq, List.map_eq_nil_iff, List.eq_nil_iff_forall_not_mem]
  simp only [Prod.forall, mem_failuresFrom]
  simp only [List.mem_iff_getElem?, not_exists]
  exact forall_comm

end Classes

/-! ## What is written -/

/-- Nothing can be written: the file cannot be read, its document cannot be read, or a class that is
named is unknown. -/
inductive Blocked (files : Files) (d : Decoder) (file : String) (classes : List String) : Prop
  | unreadable {reason : String} (hfile : files file = .error reason)
  | wire {text : List UInt8} {e : WireError} (hfile : files file = .ok text)
      (hparse : Stylesheet.parse d text = .error e)
  | unknownClass {text : List UInt8} {sheet : Stylesheet} {diagnostics : List Diagnostic}
      {name : String} (hfile : files file = .ok text)
      (hparse : Stylesheet.parse d text = .ok (sheet, diagnostics)) (hname : name ∈ classes)
      (hunknown : sheet.class? name = none)

/-- A modifier of the document was left out, or a modifier of a selected class has no value. -/
def HasFailures (sheet : Stylesheet) (diagnostics : List Diagnostic) (context : Context)
    (classes : List String) : Prop :=
  diagnostics ≠ [] ∨
    ∃ name, Selects classes sheet name ∧ ∃ e, .error e ∈ sheet.resolveClass name context

/-- One JSON object is written.  Its keys are the selected classes, each with its modifiers that
have a value, in order.  Failures matter to the exit status only, and only if they are not to be
accepted. -/
structure Printed (sheet : Stylesheet) (diagnostics : List Diagnostic) (context : Context)
    (classes : List String) (isStrict : Bool) (outcome : Outcome) : Prop where
  stdout : ∃ members, outcome.stdout = (Json.object members).pretty ++ "\n" ∧
    Increasing members ∧ ∀ name json, (name, json) ∈ members ↔
      Selects classes sheet name ∧
        json = .array ((sheet.kept context name).map Modifier.toJson)
  strict : isStrict = true → HasFailures sheet diagnostics context classes → outcome.exit = 1
  success : ¬(isStrict = true ∧ HasFailures sheet diagnostics context classes) → outcome.exit = 0

section Outcomes

variable {file : String} {classes : List String} {isStrict : Bool} {context : Context}
  {sheet : Stylesheet} {diagnostics : List Diagnostic}

theorem sheetOutcome_of_unknown (h : ∃ name ∈ classes, sheet.class? name = none) :
    (sheetOutcome file classes isStrict context sheet diagnostics).stdout = "" ∧
      (sheetOutcome file classes isStrict context sheet diagnostics).exit = 1 := by
  have hselected : selectedClasses classes sheet = classes := by
    obtain ⟨name, hname, -⟩ := h
    rw [selectedClasses, List.isEmpty_eq_false_iff_exists_mem.mpr ⟨name, hname⟩]
    rfl
  obtain ⟨known, name, hunknown⟩ := firstUnknown_of_unknown h
  rw [sheetOutcome, hselected, hunknown]
  exact ⟨rfl, rfl⟩

theorem hasFailures_iff :
    HasFailures sheet diagnostics context classes ↔
      diagnostics ≠ [] ∨
        classWarnings sheet context (selectedClasses classes sheet) ≠ [] := by
  rw [HasFailures, ne_eq (classWarnings _ _ _), classWarnings_eq_nil_iff]
  simp only [mem_selectedClasses, not_forall, not_not, exists_prop]

theorem printed_sheetOutcome (h : ∀ name ∈ classes, sheet.class? name ≠ none) :
    Printed sheet diagnostics context classes isStrict
      (sheetOutcome file classes isStrict context sheet diagnostics) := by
  have hknown : firstUnknown sheet (selectedClasses classes sheet) =
      (selectedClasses classes sheet, none) := by
    refine firstUnknown_of_known fun name hname => ?_
    rcases mem_selectedClasses.mp hname with hnamed | ⟨-, hown⟩
    · exact h name hnamed
    · exact hown
  obtain ⟨members, hmembers, hincreasing, hentries⟩ :=
    classesJson_members sheet context (selectedClasses classes sheet)
  have hstdout : (sheetOutcome file classes isStrict context sheet diagnostics).stdout =
      (Json.object members).pretty ++ "\n" := by
    rw [sheetOutcome, hknown, ← hmembers]
    dsimp only
    split <;> rfl
  have hexit : (sheetOutcome file classes isStrict context sheet diagnostics).exit =
      if isStrict && (!diagnostics.isEmpty ||
        !(classWarnings sheet context (selectedClasses classes sheet)).isEmpty) then 1 else 0 := by
    rw [sheetOutcome, hknown]
    dsimp only
    split <;> rfl
  have hcondition : (isStrict && (!diagnostics.isEmpty ||
        !(classWarnings sheet context (selectedClasses classes sheet)).isEmpty)) = true ↔
      isStrict = true ∧ HasFailures sheet diagnostics context classes := by
    rw [hasFailures_iff]
    simp
  constructor
  · simp only [mem_selectedClasses] at hentries
    exact ⟨members, hstdout, hincreasing, hentries⟩
  · intro hstrict hfailures
    rw [hexit, if_pos (hcondition.mpr ⟨hstrict, hfailures⟩)]
  · intro hsuccess
    rw [hexit, if_neg fun hcond => hsuccess (hcondition.mp hcond)]

/-- **All or nothing.** -/
theorem runStylesheet_outcomes (files : Files) (s : Settings) (file : String)
    (classes : List String) (isStrict : Bool) :
    let outcome := runStylesheet files s file classes isStrict
    (Blocked files s.decoder file classes ∧ outcome.stdout = "" ∧ outcome.exit = 1) ∨
      ∃ text sheet diagnostics, files file = .ok text ∧
        Stylesheet.parse s.decoder text = .ok (sheet, diagnostics) ∧
        (∀ name ∈ classes, sheet.class? name ≠ none) ∧
        Printed sheet diagnostics s.context classes isStrict outcome := by
  intro outcome
  have houtcome : outcome = runStylesheet files s file classes isStrict := rfl
  rw [runStylesheet, loadStylesheet] at houtcome
  cases hfile : files file with
  | error reason =>
    rw [hfile] at houtcome
    rw [houtcome]
    exact .inl ⟨.unreadable hfile, rfl, rfl⟩
  | ok text =>
    rw [hfile] at houtcome
    cases hparse : Stylesheet.parse s.decoder text with
    | error e =>
      simp only [hparse, Except.mapError] at houtcome
      rw [houtcome]
      exact .inl ⟨.wire hfile hparse, rfl, rfl⟩
    | ok result =>
      obtain ⟨sheet, diagnostics⟩ := result
      simp only [hparse, Except.mapError] at houtcome
      rw [houtcome]
      by_cases hunknown : ∃ name ∈ classes, sheet.class? name = none
      · obtain ⟨name, hname, hnone⟩ := hunknown
        exact .inl ⟨.unknownClass hfile hparse hname hnone,
          sheetOutcome_of_unknown ⟨name, hname, hnone⟩⟩
      · have hknown : ∀ name ∈ classes, sheet.class? name ≠ none :=
          fun name hname hnone => hunknown ⟨name, hname, hnone⟩
        exact .inr ⟨text, sheet, diagnostics, rfl, hparse, hknown, printed_sheetOutcome hknown⟩

theorem not_blocked {files : Files} {d : Decoder} {text : List UInt8}
    (hfile : files file = .ok text)
    (hparse : Stylesheet.parse d text = .ok (sheet, diagnostics))
    (hknown : ∀ name ∈ classes, sheet.class? name ≠ none) : ¬Blocked files d file classes := by
  rintro (hfile' | ⟨hfile', hparse'⟩ | ⟨hfile', hparse', hname, hunknown⟩)
  · rw [hfile] at hfile'
    cases hfile'
  · rw [hfile] at hfile'
    cases hfile'
    rw [hparse] at hparse'
    cases hparse'
  · rw [hfile] at hfile'
    cases hfile'
    rw [hparse] at hparse'
    cases hparse'
    exact hknown _ hname hunknown

/-- The flag does not matter to what is written. -/
theorem stdout_runStylesheet (files : Files) (s : Settings) (file : String) (classes : List String)
    (isStrict isStrict' : Bool) :
    (runStylesheet files s file classes isStrict').stdout =
      (runStylesheet files s file classes isStrict).stdout := by
  have hsheet (sheet : Stylesheet) (diagnostics : List Diagnostic) :
      (sheetOutcome file classes isStrict' s.context sheet diagnostics).stdout =
        (sheetOutcome file classes isStrict s.context sheet diagnostics).stdout := by
    unfold sheetOutcome
    dsimp only
    cases (firstUnknown sheet (selectedClasses classes sheet)).2 with
    | some name => rfl
    | none =>
      dsimp only
      split <;> split <;> rfl
  rw [runStylesheet, runStylesheet]
  cases loadStylesheet files s.decoder file with
  | error e => rfl
  | ok result => exact hsheet result.1 result.2

end Outcomes

/-! ## Runs -/

theorem run_stylesheet {files : Files} {arguments : List String} {options : Options}
    {file : String} {classes : List String} {isStrict : Bool} {config : Config}
    (hline : Invocation.ofArguments arguments = .ok ⟨options, .stylesheet file classes isStrict⟩)
    (hconfig : loadConfig files options.config = .ok config) :
    run files arguments = runStylesheet files (settings options config) file classes isStrict := by
  rw [run, hline]
  dsimp only
  rw [runInvocation, hconfig]
  rfl

/-- **The stylesheet command writes all or nothing.**  A command line that can be understood, with a
configuration that can be read if one is named, writes nothing exactly if the file or its document
cannot be read or a class that is named is unknown, and then its exit status is 1.  Otherwise it
writes one JSON object with the selected classes, and its exit status is 0 unless the flag is given
and a modifier of the document was left out or a modifier of a selected class has no value.  The
flag changes nothing of what is written.  An option overrides the configuration file and the file
overrides the standard, values of the environment key by key, and the last of the pairs of a name
counts.  Of the uses of an option on both sides of the command those behind it count. -/
theorem stylesheet_outcomes (files : Files) {arguments : List String} {options : Options}
    {file : String} {classes : List String} {isStrict : Bool} {config : Config}
    (hline : Invocation.ofArguments arguments = .ok ⟨options, .stylesheet file classes isStrict⟩)
    (hconfig : loadConfig files options.config = .ok config) :
    let s := settings options config
    let outcome := run files arguments
    (outcome.stdout = "" ↔ Blocked files s.decoder file classes) ∧
    (Blocked files s.decoder file classes → outcome.exit = 1) ∧
    (¬Blocked files s.decoder file classes →
      ∃ text sheet diagnostics, files file = .ok text ∧
        Stylesheet.parse s.decoder text = .ok (sheet, diagnostics) ∧
        Printed sheet diagnostics s.context classes isStrict outcome) ∧
    (∀ arguments' options' file' classes' isStrict',
      Invocation.ofArguments arguments' = .ok ⟨options', .stylesheet file' classes' isStrict'⟩ →
      lenient (words arguments') = lenient (words arguments) →
      (run files arguments').stdout = outcome.stdout) ∧
    (∃ fields, FileSets files options.config fields ∧ Layered options fields s) ∧
    (∃ front behind, words arguments = front ++ .operand "stylesheet" :: behind ∧
      operands front = [] ∧ operands behind = [file] ∧ uses .className behind = classes ∧
      (isStrict = true ↔ .strict ∈ behind) ∧ options.Reads (counted front behind)) ∧
    ∀ text name value, readPair text = .ok (name, value) ↔
      text = name ++ "=" ++ value ∧ name ≠ "" ∧ '=' ∉ name.toList := by
  intro s outcome
  have hrun : outcome = runStylesheet files s file classes isStrict := run_stylesheet hline hconfig
  have hstrict : ∀ arguments' options' file' classes' isStrict',
      Invocation.ofArguments arguments' = .ok ⟨options', .stylesheet file' classes' isStrict'⟩ →
      lenient (words arguments') = lenient (words arguments) →
      (run files arguments').stdout = outcome.stdout := by
    intro arguments' options' file' classes' isStrict' hline' hwords
    obtain ⟨rfl, rfl, rfl⟩ := eq_of_lenient_eq hline hline' hwords
    rw [run_stylesheet hline' hconfig, hrun, stdout_runStylesheet]
  have hlayers : ∃ fields, FileSets files options.config fields ∧ Layered options fields s := by
    obtain ⟨fields, hfile, hfields⟩ := exists_fileSets hconfig
    have hsettings := settings_layers options fields
    rw [← hfields] at hsettings
    exact ⟨fields, hfile, hsettings⟩
  refine ⟨?_, ?_, ?_, hstrict, hlayers, stylesheet_words hline, fun _ _ _ => readPair_eq_ok_iff⟩
  all_goals
    rw [hrun]
    rcases runStylesheet_outcomes files s file classes isStrict with
      ⟨hblocked, hstdout, hexit⟩ | ⟨text, sheet, diagnostics, hfile, hparse, hknown, hprinted⟩
  · exact iff_of_true hstdout hblocked
  · refine iff_of_false ?_ (not_blocked hfile hparse hknown)
    obtain ⟨members, hstdout, -⟩ := hprinted.stdout
    rw [hstdout]
    exact fun hempty => absurd (String.append_eq_empty_iff.mp hempty).2 (by decide)
  · exact fun _ => hexit
  · exact fun hblocked => absurd hblocked (not_blocked hfile hparse hknown)
  · exact fun hnot => absurd hblocked hnot
  · exact fun _ => ⟨text, sheet, diagnostics, hfile, hparse, hprinted⟩

/-- A class that is named twice, with a modifier that has a value, in a document of which another
class has an unknown modifier; a configuration file, and pairs of one name. -/
theorem stylesheet_outcomes_strict :
    let sheetText := ("\x7b\"t\":[[\"fontWeight\",null,[null,[\"__attr__\",null,\"weight\"]]]]," ++
      "\"u\":[[\"nope\",null,[]]]\x7d").toUTF8.toList
    let configText := ("\x7b\"platform\":\"macOS\"," ++
      "\"environment\":\x7b\"colorScheme\":\"light\"\x7d\x7d").toUTF8.toList
    let files : Files := fun path =>
      if path = "s.json" then .ok sheetText
      else if path = "c.json" then .ok configText else .error "not there"
    let arguments := ["--config", "c.json", "--env", "density=compact", "stylesheet", "s.json",
      "--class", "t", "--class=t", "--strict", "--attr", "weight=thin", "--attr", "weight=bold"]
    let options : Options := ⟨some "c.json", none, none, [("weight", "thin"), ("weight", "bold")],
      [("density", "compact")]⟩
    let config : Config :=
      ⟨.macos, .ofMinor 18 0, Table.empty.insert "colorScheme" (.string "light")⟩
    Invocation.ofArguments arguments = .ok ⟨options, .stylesheet "s.json" ["t", "t"] true⟩ ∧
      loadConfig files options.config = .ok config ∧
      ¬Blocked files (settings options config).decoder "s.json" ["t", "t"] ∧
      (run files arguments).exit = 1 ∧
      (∃ members, (run files arguments).stdout = (Json.object members).pretty ++ "\n" ∧
        ∀ name, (∃ json, (name, json) ∈ members) ↔ name = "t") ∧
      (settings options config).context.attribute? "weight" = some (.string "bold") ∧
      (settings options config).context.environment.value? "colorScheme" =
        some (.string "light") ∧
      (settings options config).context.environment.value? "density" =
        some (.string "compact") := by
  intro sheetText configText files arguments options config
  have hline : Invocation.ofArguments arguments =
      .ok ⟨options, .stylesheet "s.json" ["t", "t"] true⟩ := by rfl
  have hconfig : loadConfig files options.config = .ok config := by
    have hparse : Config.parse configText = .ok config := by
      let document : Json := .object [("platform", .string "macOS"),
        ("environment", .object [("colorScheme", .string "light")])]
      have hscan : Json.scan configText = ⟨document.toSource, none⟩ := by
        simp only [configText, document]
        exact Json.scan_toUTF8 (by decide +kernel) (by simp [Json.maxDepth])
      rw [Config.parse, hscan]
      rfl
    have hfile : files "c.json" = .ok configText := rfl
    rw [loadConfig, hfile]
    dsimp only
    rw [hparse]
    rfl
  let weight : Json := .array [.string "fontWeight", .null,
    .array [.null, .array [.string "__attr__", .null, .string "weight"]]]
  let nope : Json := .array [.string "nope", .null, .array []]
  have htext : Json.parse sheetText =
      .ok (.object [("t", .array [weight]), ("u", .array [nope])]) := by
    have hkeys : Increasing [("t", Json.array [weight]), ("u", Json.array [nope])] := by
      unfold Increasing
      decide
    simp only [sheetText, weight, nope]
    exact Json.parse_toUTF8 (by decide +kernel)
      (Json.valid_object_iff.mpr ⟨hkeys, by simp⟩) (by simp [Json.maxDepth])
  have hparse : ((Stylesheet.parse (Registry.standard .macos).decoder sheetText).toOption.any
      fun result => !result.2.isEmpty && (result.1.class? "t").isSome) = true := by
    rw [Stylesheet.parse, htext]
    decide +kernel
  obtain ⟨⟨sheet, diagnostics⟩, hsheet, hresult⟩ := (Option.any_eq_true _ _).mp hparse
  replace hsheet := toOption_eq_some_iff.mp hsheet
  obtain ⟨hdiagnostics, hknown⟩ := Bool.and_eq_true_iff.mp hresult
  have hblocked : ¬Blocked files (settings options config).decoder "s.json" ["t", "t"] := by
    have hfile : files "s.json" = .ok sheetText := rfl
    refine not_blocked hfile hsheet ?_
    simpa using Option.isSome_iff_ne_none.mp hknown
  obtain ⟨-, -, hprints, -, ⟨fields, -, hlayers⟩, -⟩ := stylesheet_outcomes files hline hconfig
  obtain ⟨text, sheet', diagnostics', hfile, hsheet', hprinted⟩ := hprints hblocked
  cases hfile
  obtain ⟨rfl, rfl⟩ : sheet = sheet' ∧ diagnostics = diagnostics' :=
    Prod.mk.inj (Except.ok.inj (hsheet.symm.trans hsheet'))
  have hfailures : HasFailures sheet diagnostics (settings options config).context ["t", "t"] := by
    refine .inl fun hnone => ?_
    rw [hnone] at hdiagnostics
    cases hdiagnostics
  obtain ⟨members, hstdout, -, hentries⟩ := hprinted.stdout
  refine ⟨hline, hconfig, hblocked, hprinted.strict rfl hfailures, ⟨members, hstdout, ?_⟩,
    hlayers.attributes "weight", rfl, ?_⟩
  · intro name
    simp [hentries, Selects]
  · exact (hlayers.values "density").trans rfl

/-- Pairs in front of the command that do not count, since pairs of other names stand behind it: an
attribute that stays without a value, so that a modifier is left out, and a value of the environment
that stays as the configuration file has it. -/
theorem front_pairs_dropped :
    let sheetText := ("\x7b\"t\":[[\"fontWeight\",null," ++
      "[null,[\"__attr__\",null,\"weight\"]]]]\x7d").toUTF8.toList
    let files : Files := fun path => if path = "s.json" then .ok sheetText else .error "not there"
    let attributes := ["--attr", "weight=bold", "stylesheet", "s.json", "--attr", "x=1"]
    let values := ["--config", "c.json", "--env", "colorScheme=dark", "stylesheet", "s.json",
      "--env", "density=compact"]
    uses (.general .attr) (words attributes) = ["weight=bold", "x=1"] ∧
      (∃ options, Invocation.ofArguments attributes =
          .ok ⟨options, .stylesheet "s.json" [] false⟩ ∧
        (settings options .standard).context.attribute? "weight" = none) ∧
      (run files attributes).stdout = "\x7b\n  \"t\": []\n\x7d\n" ∧
      uses (.general .env) (words values) = ["colorScheme=dark", "density=compact"] ∧
      ∃ options, Invocation.ofArguments values = .ok ⟨options, .stylesheet "s.json" [] false⟩ ∧
        ∀ config, (settings options config).context.environment.value? "colorScheme" =
          config.environment.find? "colorScheme" := by
  intro sheetText files attributes values
  have hattributes : Invocation.ofArguments attributes =
      .ok ⟨⟨none, none, none, [("x", "1")], []⟩, .stylesheet "s.json" [] false⟩ := by rfl
  have hvalues : Invocation.ofArguments values =
      .ok ⟨⟨some "c.json", none, none, [], [("density", "compact")]⟩,
        .stylesheet "s.json" [] false⟩ := by rfl
  refine ⟨by decide +kernel, ⟨_, hattributes, rfl⟩, ?_, by decide +kernel, _, hvalues,
    fun config => ?_⟩
  · have htext : Json.parse sheetText = .ok (.object [("t", .array [.array [.string "fontWeight",
        .null, .array [.null, .array [.string "__attr__", .null, .string "weight"]]]])]) := by
      simp only [sheetText]
      exact Json.parse_toUTF8 (by decide +kernel) (by simp [Increasing]) (by simp [Json.maxDepth])
    have hfile : files "s.json" = .ok sheetText := rfl
    rw [run_stylesheet hattributes rfl, runStylesheet, loadStylesheet, hfile]
    dsimp only
    rw [Stylesheet.parse, htext]
    decide +kernel
  · exact Table.find?_insert _ _ _ _

end DeferredStyle.CommandLine
