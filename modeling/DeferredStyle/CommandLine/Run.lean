import DeferredStyle.CommandLine.Arguments
import DeferredStyle.Config
import DeferredStyle.Failure.Report
import DeferredStyle.Json.Printer
import DeferredStyle.Stylesheet.Basic
import DeferredStyle.Vocabulary.Standard

/-!
# Running commands

`run` gives the outcome of a command line: what the program writes and its exit status.  Files are
read through a function from their names to their bytes.

* `settings` — an option overrides the configuration file, and the file overrides the standard.
* `runStylesheet`, `runValue` — the two commands.
* `run` — a whole run of the program.
-/

set_option autoImplicit false

namespace DeferredStyle.CommandLine

/-- The bytes of a file, or the reason why it cannot be read. -/
abbrev Files := String → Except String (List UInt8)

/-- What a run leaves behind. -/
structure Outcome where
  exit : UInt32
  stdout : String
  stderr : String

/-- Why a command ends early. -/
inductive CommandError where
  | unreadableConfig (file reason : String)
  | invalidConfig (file : String) (error : ConfigError)
  | unreadableStylesheet (file reason : String)
  | wire (error : WireError)
  | undecodable (failures : DecodeFailures)
  | unresolvable (typeName : String) (error : ResolveError)
  | unknownClass (name : String)
  | strict (undecoded unresolved : Nat)

/-- The text of a wire error with its cause behind it. -/
def wireText : WireError → String
  | .json fault => (WireError.json fault).message ++ ": " ++ fault.message
  | other => other.message

/-- What is written for an error of a command that reads `file`. -/
def CommandError.text (file : String) (error : CommandError) : String :=
  let located := fun message : String => s!"error: {message}\n  --> {file}\n"
  match error with
  | unreadableConfig config reason => located s!"read config: {config}: {reason}"
  | invalidConfig config e => located s!"parse config JSON: {config}: {e.message}"
  | unreadableStylesheet file reason => located s!"read stylesheet: {file}: {reason}"
  | wire e => located (wireText e)
  | undecodable failures => s!"error: cannot decode `{failures.typeName}`\n{failures.report}\n"
  | unresolvable typeName e => located s!"resolve `{typeName}`: {e.message}"
  | unknownClass name => located s!"unknown class `{name}`"
  | strict undecoded unresolved =>
    located s!"{undecoded} modifiers failed to decode and {unresolved} failed to resolve"

/-! ## Settings -/

/-- The configuration file, if one is named. -/
def loadConfig (files : Files) : Option String → Except CommandError Config
  | none => .ok .standard
  | some file =>
    match files file with
    | .error reason => .error (.unreadableConfig file reason)
    | .ok text => (Config.parse text).mapError (.invalidConfig file)

/-- A configuration with options over it. -/
def Options.over (options : Options) (config : Config) : Config where
  platform := options.platform.getD config.platform
  runtimeVersion := options.runtimeVersion.getD config.runtimeVersion
  environment :=
    options.environment.foldl (fun values (key, text) => values.insert key (.string text))
      config.environment

/-- The element that options describe. -/
def Options.element (options : Options) : Element :=
  options.attributes.foldl (fun element (name, text) => element.set name (.string text)) .empty

/-- What a command works with. -/
structure Settings where
  decoder : Decoder
  context : Context

/-- The settings of options over a configuration. -/
def settings (options : Options) (config : Config) : Settings :=
  let config := options.over config
  ⟨(Registry.standard config.platform).decoder,
    .ofElement options.element config.toEnvironment⟩

/-! ## The stylesheet command -/

/-- The classes to resolve: those that are named, or all. -/
def selectedClasses (classes : List String) (sheet : Stylesheet) : List String :=
  if classes.isEmpty then sheet.classNames else classes

/-- What is written about a modifier that was left out. -/
def diagnosticText (d : Diagnostic) : String :=
  s!"warning: dropped modifier {d.index} of class `{d.className}`\n{d.failures.report}\n"

/-- What is written about modifiers that have no value; the first result has the index `i`. -/
def unresolvedTexts (className : String) (i : Nat) :
    List (Except ResolveError Modifier) → List String
  | [] => []
  | .ok _ :: results => unresolvedTexts className (i + 1) results
  | .error e :: results =>
    s!"warning: modifier {i} of class `{className}`: {e.message}\n" ::
      unresolvedTexts className (i + 1) results

/-- What is written about the modifiers of classes that have no value. -/
def classWarnings (sheet : Stylesheet) (context : Context) (classes : List String) :
    List String :=
  classes.flatMap fun className =>
    unresolvedTexts className 0 (sheet.resolveClass className context)

/-- The modifiers of classes that have a value. -/
def resolvedClasses (sheet : Stylesheet) (context : Context) (classes : List String) :
    Table (List Modifier) :=
  Table.ofList (classes.map fun className =>
    (className, (sheet.resolveClass className context).filterMap Except.toOption))

/-- The JSON value of the modifiers of classes. -/
def classesJson (classes : Table (List Modifier)) : Json :=
  .object (classes.map fun modifiers => Json.array (modifiers.map Modifier.toJson)).entries

/-- The first class of a list that a stylesheet does not have, and the classes in front of it. -/
def firstUnknown (sheet : Stylesheet) : List String → List String × Option String
  | [] => ([], none)
  | className :: classes =>
    if sheet.classes.contains className then
      let (known, unknown) := firstUnknown sheet classes
      (className :: known, unknown)
    else ([], some className)

/-- The outcome of resolving a stylesheet that could be read. -/
def sheetOutcome (file : String) (classes : List String) (isStrict : Bool) (context : Context)
    (sheet : Stylesheet) (diagnostics : List Diagnostic) : Outcome :=
  let (known, unknown) := firstUnknown sheet (selectedClasses classes sheet)
  let unresolved := classWarnings sheet context known
  let warnings := String.join (diagnostics.map diagnosticText) ++ String.join unresolved
  match unknown with
  | some name => ⟨1, "", warnings ++ (CommandError.unknownClass name).text file⟩
  | none =>
    let output := (classesJson (resolvedClasses sheet context known)).pretty ++ "\n"
    if isStrict && (!diagnostics.isEmpty || !unresolved.isEmpty) then
      ⟨1, output,
        warnings ++ (CommandError.strict diagnostics.length unresolved.length).text file⟩
    else ⟨0, output, warnings⟩

/-- The stylesheet in a file. -/
def loadStylesheet (files : Files) (d : Decoder) (file : String) :
    Except CommandError (Stylesheet × List Diagnostic) :=
  match files file with
  | .error reason => .error (.unreadableStylesheet file reason)
  | .ok text => (Stylesheet.parse d text).mapError .wire

/-- The outcome of the stylesheet command. -/
def runStylesheet (files : Files) (s : Settings) (file : String) (classes : List String)
    (isStrict : Bool) : Outcome :=
  match loadStylesheet files s.decoder file with
  | .error e => ⟨1, "", e.text file⟩
  | .ok (sheet, diagnostics) => sheetOutcome file classes isStrict s.context sheet diagnostics

/-! ## The value command -/

/-- The value of the node in a file as a type. -/
def loadValue (files : Files) (s : Settings) (typeName file : String) :
    Except CommandError Value :=
  match files file with
  | .error reason => .error (.unreadableStylesheet file reason)
  | .ok text =>
    match Wire.parseNode text with
    | .error e => .error (.wire e)
    | .ok node =>
      match s.decoder.decodeType node typeName with
      | .error failures => .error (.undecodable failures)
      | .ok r => (r.resolve s.context).mapError (.unresolvable typeName)

/-- The outcome of the value command. -/
def runValue (files : Files) (s : Settings) (typeName file : String) : Outcome :=
  match loadValue files s typeName file with
  | .error e => ⟨1, "", e.text file⟩
  | .ok value => ⟨0, value.toJson.pretty ++ "\n", ""⟩

/-! ## Runs -/

/-- The outcome of a command with its settings. -/
def runCommand (files : Files) (s : Settings) : Command → Outcome
  | .stylesheet file classes isStrict => runStylesheet files s file classes isStrict
  | .value typeName file => runValue files s typeName file

/-- The outcome of a command line that was understood. -/
def runInvocation (files : Files) (invocation : Invocation) : Outcome :=
  match loadConfig files invocation.options.config with
  | .error e => ⟨1, "", e.text invocation.command.file⟩
  | .ok config => runCommand files (settings invocation.options config) invocation.command

/-- The outcome of a run of the program. -/
def run (files : Files) (arguments : List String) : Outcome :=
  match Invocation.ofArguments arguments with
  | .error e => ⟨2, "", e.message ++ "\n"⟩
  | .ok invocation => runInvocation files invocation

end DeferredStyle.CommandLine
