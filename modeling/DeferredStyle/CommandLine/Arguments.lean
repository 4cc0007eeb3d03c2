import DeferredStyle.Platform
import DeferredStyle.Text.Split
import DeferredStyle.Version

/-!
# Command line arguments

`Invocation.ofArguments` reads the arguments of the program: options that hold for every command, a
command, and the options and operands of the command.  The general options may stand before the
command or behind it; where an option stands on both sides, only what is behind the command counts.

The value of an option, and an operand, are looked at when the next argument has been understood, or
at the end of their side of the command.  So an argument that cannot be understood is reported in
place of a wrong value right in front of it, and whatever is wrong behind the command in place of a
wrong value right in front of the command.

* `UsageError` — what can be wrong, with the line that is shown for it.
* `Side.settle` — looking at what is pending.
* `readArguments` — one side of the command.
-/

set_option autoImplicit false

namespace DeferredStyle.CommandLine

/-- The name of the program. -/
def programName : String := "livestyle"

/-- What the program is for. -/
def about : String :=
  "Decode serialized stylesheets and resolve them against an element"

/-- What to do. -/
inductive Command where
  /-- Resolve the classes of a stylesheet. -/
  | stylesheet (file : String) (classes : List String) (strict : Bool)
  /-- Resolve one node as a type. -/
  | value (typeName file : String)

/-- The file a command reads. -/
def Command.file : Command → String
  | stylesheet file _ _ => file
  | value _ file => file

/-- The options that hold for every command, each in the order of its uses. -/
structure Options where
  config : Option String
  platform : Option Platform
  runtimeVersion : Option Version
  attributes : List (String × String)
  environment : List (String × String)

/-- No options. -/
def Options.none : Options := ⟨.none, .none, .none, [], []⟩

/-- A whole command line. -/
structure Invocation where
  options : Options
  command : Command

/-- Why a command line cannot be understood. -/
inductive UsageError where
  | nothingGiven
  | noCommand
  | unknownCommand (name : String)
  | unexpectedArgument (argument : String)
  | missingValue (option : String)
  | invalidValue (option value reason : String)
  | unexpectedValue (option value : String)
  | repeated (option : String)
  | missingOperands

/-- The line that is shown for a usage error. -/
def UsageError.message : UsageError → String
  | nothingGiven => about
  | noCommand => s!"error: '{programName}' requires a subcommand but one was not provided"
  | unknownCommand name => s!"error: unrecognized subcommand '{name}'"
  | unexpectedArgument argument => s!"error: unexpected argument '{argument}' found"
  | missingValue option => s!"error: a value is required for '{option}' but none was supplied"
  | invalidValue option value reason => s!"error: invalid value '{value}' for '{option}': {reason}"
  | unexpectedValue option value =>
    s!"error: unexpected value '{value}' for '{option}' found; no more were expected"
  | repeated option => s!"error: the argument '{option}' cannot be used multiple times"
  | missingOperands => "error: the following required arguments were not provided:"

/-! ## Option values -/

/-- A name and a value around the first equals sign; the name must not be empty. -/
def readPair (text : String) : Except String (String × String) :=
  match Text.cutOnce '=' text.toList with
  | some (name, value) =>
    if name.isEmpty then .error s!"expected NAME=VALUE, got `{text}`"
    else .ok (String.ofList name, String.ofList value)
  | none => .error s!"expected NAME=VALUE, got `{text}`"

/-- A platform by name. -/
def readPlatform (text : String) : Except String Platform :=
  match Platform.ofText? text with
  | some platform => .ok platform
  | none => .error (Platform.unknownMessage text)

/-- A version in text form. -/
def readVersion (text : String) : Except String Version :=
  match Version.ofText? text with
  | some version => .ok version
  | none => .error (Version.invalidMessage text)

/-- An option that holds for every command. -/
inductive GeneralOption where
  | config
  | platform
  | runtimeVersion
  | attr
  | env
  deriving DecidableEq

/-- An option that takes a value. -/
inductive OptionName where
  | general (option : GeneralOption)
  | className
  deriving DecidableEq

/-- The option with the given long name. -/
def OptionName.ofLong? (long : String) : Option OptionName :=
  match long with
  | "config" => some (general .config)
  | "platform" => some (general .platform)
  | "runtime-version" => some (general .runtimeVersion)
  | "attr" => some (general .attr)
  | "env" => some (general .env)
  | "class" => some className
  | _ => none

/-- An option as messages show it. -/
def OptionName.shown : OptionName → String
  | general .config => "--config <FILE>"
  | general .platform => "--platform <PLATFORM>"
  | general .runtimeVersion => "--runtime-version <VERSION>"
  | general .attr => "--attr <NAME=VALUE>"
  | general .env => "--env <KEY=VALUE>"
  | className => "--class <NAME>"

/-- The command that has been named, with the operands and options read for it so far. -/
inductive Stage where
  | start
  | stylesheet (operands classes : List String) (strict : Bool)
  | value (operands : List String)

/-- What has been read last and is not looked at before the next argument is understood. -/
inductive Pending where
  | nothing
  /-- An option with its value, if that has been read too. -/
  | option (name : OptionName) (text : Option String)
  | operand (text : String)

/-- What has been read on one side of the command. -/
structure Side where
  options : Options
  stage : Stage
  pending : Pending

/-- The side in front of the command. -/
def Side.front : Side := ⟨.none, .start, .nothing⟩

/-- The side behind a command. -/
def Side.behind (stage : Stage) : Side := ⟨.none, stage, .nothing⟩

/-! ## Settling what is pending -/

/-- A value that was read, or the error that says for which option it is wrong. -/
def checked {α : Type} (option : GeneralOption) (text : String) :
    Except String α → Except UsageError α
  | .ok a => .ok a
  | .error reason => .error (.invalidValue (OptionName.general option).shown text reason)

/-- The value of an option that must not be used twice. -/
def single {α : Type} (option : GeneralOption) (present : Bool)
    (value : Except UsageError α) : Except UsageError α :=
  if present then .error (.repeated (OptionName.general option).shown) else value

/-- The name of a file, which must not be empty. -/
def readFileName (shown text : String) : Except UsageError String :=
  if text.isEmpty then .error (.missingValue shown) else .ok text

/-- Options with one more use of an option. -/
def Options.set (options : Options) (option : GeneralOption) (text : String) :
    Except UsageError Options :=
  match option with
  | .config =>
    (single option options.config.isSome
        (readFileName (OptionName.general option).shown text)).map fun file =>
      { options with config := some file }
  | .platform =>
    (single option options.platform.isSome
        (checked option text (readPlatform text))).map fun platform =>
      { options with platform := some platform }
  | .runtimeVersion =>
    (single option options.runtimeVersion.isSome
        (checked option text (readVersion text))).map fun version =>
      { options with runtimeVersion := some version }
  | .attr =>
    (checked option text (readPair text)).map fun pair =>
      { options with attributes := options.attributes ++ [pair] }
  | .env =>
    (checked option text (readPair text)).map fun pair =>
      { options with environment := options.environment ++ [pair] }

/-- A stage with one more class. -/
def Stage.addClass (stage : Stage) (className : String) : Stage :=
  match stage with
  | .stylesheet operands classes strict => .stylesheet operands (classes ++ [className]) strict
  | other => other

/-- A stage with one more operand. -/
def Stage.addOperand (stage : Stage) (text : String) : Except UsageError Stage :=
  match stage with
  | .start => .ok .start
  | .stylesheet operands classes strict =>
    (readFileName "<FILE>" text).map fun file => .stylesheet (operands ++ [file]) classes strict
  | .value [] => .ok (.value [text])
  | .value operands => (readFileName "<FILE>" text).map fun file => .value (operands ++ [file])

/-- The side after an option with its value. -/
def Side.setOption (side : Side) (name : OptionName) (text : String) : Except UsageError Side :=
  match name with
  | .general option => (side.options.set option text).map fun options => { side with options }
  | .className => .ok { side with stage := side.stage.addClass text }

/-- The side with nothing pending, or what is wrong with what was. -/
def Side.settle (side : Side) : Except UsageError Side :=
  let settled := { side with pending := .nothing }
  match side.pending with
  | .nothing => .ok settled
  | .option name none => .error (.missingValue name.shown)
  | .option name (some text) => settled.setOption name text
  | .operand text => (side.stage.addOperand text).map fun stage => { settled with stage }

/-! ## Arguments -/

/-- An argument by its outer form. -/
inductive Form where
  /-- An option with the value behind its equals sign, if it has one. -/
  | long (name : String) (value : Option String)
  /-- A cluster of one-letter options, none of which is known. -/
  | short (text : String)
  /-- The argument behind which there are operands only. -/
  | separator
  | operand (text : String)

/-- The outer form of an argument. -/
def Form.of (text : String) : Form :=
  match text.toList with
  | ['-', '-'] => .separator
  | '-' :: '-' :: rest =>
    match Text.cutOnce '=' rest with
    | some (name, value) => .long (String.ofList name) (some (String.ofList value))
    | none => .long (String.ofList rest) none
  | '-' :: c :: _ => .short (String.ofList ['-', c])
  | _ => .operand text

/-- What a long name means. -/
inductive LongName where
  | valued (name : OptionName)
  | strict
  | unknown

/-- What a long name means at a stage: two of them belong to one command only. -/
def Stage.longName (stage : Stage) (long : String) : LongName :=
  match OptionName.ofLong? long, stage with
  | some .className, .stylesheet _ _ _ => .valued .className
  | some .className, _ => .unknown
  | some name, _ => .valued name
  | none, .stylesheet _ _ _ => if long = "strict" then .strict else .unknown
  | none, _ => .unknown

/-- The stage of the command with the given name. -/
def Stage.ofCommand? (name : String) : Option Stage :=
  match name with
  | "stylesheet" => some (.stylesheet [] [] false)
  | "value" => some (.value [])
  | _ => none

/-- The side after `--strict`. -/
def Side.setStrict (side : Side) : Except UsageError Side :=
  match side.stage with
  | .stylesheet operands classes false =>
    .ok { side with stage := .stylesheet operands classes true }
  | _ => .error (.repeated "--strict")

/-- The side after the long form of an option.  An unknown name, or a value where none belongs, is
reported even if something wrong is still pending. -/
def Side.addLong (side : Side) (long : String) (value : Option String) :
    Except UsageError Side :=
  match side.stage.longName long, value with
  | .unknown, _ => .error (.unexpectedArgument s!"--{long}")
  | .strict, some value => .error (.unexpectedValue "--strict" value)
  | .strict, none => side.settle.bind Side.setStrict
  | .valued name, some value => side.settle.bind fun side => side.setOption name value
  | .valued name, none =>
    side.settle.map fun side => { side with pending := .option name none }

/-- How many operands a stage still takes, what is pending not counted. -/
def Stage.openOperands : Stage → Nat
  | .start => 0
  | .stylesheet operands _ _ => 1 - operands.length
  | .value operands => 2 - operands.length

/-- Whether an operand is pending. -/
def Pending.isOperand : Pending → Bool
  | .operand _ => true
  | _ => false

/-- The side after an operand.  One operand too many is reported even if something wrong is still
pending. -/
def Side.addOperand (side : Side) (text : String) : Except UsageError Side :=
  if side.stage.openOperands ≤ (if side.pending.isOperand then 1 else 0) then
    .error (.unexpectedArgument text)
  else side.settle.map fun side => { side with pending := .operand text }

/-! ## Sides -/

/-- Where reading one side ended: at the end of the arguments, or at a command and what stands
behind it. -/
structure Reached where
  side : Side
  command : Option (Stage × List String)

/-- The side after operands only.  A command has to stand in front of the separator. -/
def readOperands (side : Side) : List String → Except UsageError Reached
  | [] => .ok ⟨side, none⟩
  | text :: rest =>
    match side.stage with
    | .start =>
      if (Stage.ofCommand? text).isSome then .error (.unexpectedArgument text)
      else .error (.unknownCommand text)
    | _ =>
      match side.addOperand text with
      | .error e => .error e
      | .ok side => readOperands side rest

/-- The side after arguments, up to a command if none has been named.  An option that waits for its
value takes the next operand, whatever it is. -/
def readArguments (side : Side) : List String → Except UsageError Reached
  | [] => .ok ⟨side, none⟩
  | text :: rest =>
    match Form.of text with
    | .separator => readOperands side rest
    | .short shown => .error (.unexpectedArgument shown)
    | .long long value =>
      match side.addLong long value with
      | .error e => .error e
      | .ok side => readArguments side rest
    | .operand text =>
      match side.pending, side.stage with
      | .option name none, _ =>
        readArguments { side with pending := .option name (some text) } rest
      | _, .start =>
        match Stage.ofCommand? text with
        | some stage => .ok ⟨side, some (stage, rest)⟩
        | none => .error (.unknownCommand text)
      | _, _ =>
        match side.addOperand text with
        | .error e => .error e
        | .ok side => readArguments side rest

/-! ## Command lines -/

/-- Whether no option has been used. -/
def Options.isEmpty (options : Options) : Bool :=
  options.config.isNone && options.platform.isNone && options.runtimeVersion.isNone &&
    options.attributes.isEmpty && options.environment.isEmpty

/-- The options behind the command where there are any, and those in front of it elsewhere. -/
def Options.merge (front behind : Options) : Options where
  config := behind.config.or front.config
  platform := behind.platform.or front.platform
  runtimeVersion := behind.runtimeVersion.or front.runtimeVersion
  attributes := if behind.attributes.isEmpty then front.attributes else behind.attributes
  environment := if behind.environment.isEmpty then front.environment else behind.environment

/-- The command of a stage, once all its operands are there. -/
def Stage.command : Stage → Except UsageError Command
  | .stylesheet [file] classes strict => .ok (.stylesheet file classes strict)
  | .value [typeName, file] => .ok (.value typeName file)
  | _ => .error .missingOperands

/-- Why a command line without a command cannot be understood. -/
def withoutCommand (front : Side) : UsageError :=
  match front.settle with
  | .error e => e
  | .ok front => if front.options.isEmpty then .nothingGiven else .noCommand

/-- The options behind the command and the command itself. -/
def readCommand (stage : Stage) (arguments : List String) :
    Except UsageError (Options × Command) := do
  let reached ← readArguments (.behind stage) arguments
  let side ← reached.side.settle
  return (side.options, ← side.stage.command)

/-- The command line of a list of arguments.  What is pending in front of the command is looked at
last. -/
def Invocation.ofArguments (arguments : List String) : Except UsageError Invocation := do
  let reached ← readArguments .front arguments
  match reached.command with
  | none => throw (withoutCommand reached.side)
  | some (stage, rest) =>
    let (behind, command) ← readCommand stage rest
    let front ← reached.side.settle
    return ⟨front.options.merge behind, command⟩

end DeferredStyle.CommandLine
