import DeferredStyle.Context
import DeferredStyle.Json.Mismatch
import DeferredStyle.Json.Scanner

/-!
# Configurations

The system a stylesheet is resolved for and the values of its environment.

A configuration document is an object with the optional members `platform`, `runtimeVersion` and
`environment`, or a list of these three in this order.  It is read from left to right and the first
thing wrong with it is what is reported, be it a fault of the text or a value of the wrong type.

* `Config.ofDocument` — the configuration of a document.
* `Config.toJson` — the document of a configuration.
-/

set_option autoImplicit false

namespace DeferredStyle

/-- The running system and the values of the environment. -/
structure Config where
  platform : Platform
  runtimeVersion : Version
  environment : Table Literal

/-- Why a document is no configuration. -/
inductive ConfigError where
  | json (fault : Json.Fault)
  | mismatch (mismatch : Json.Mismatch)
  | unknownField (name : String)
  | duplicateField (name : String)
  | unknownPlatform (text : String)
  | invalidVersion (text : String)
  | notLiteral

/-- The text of a configuration error. -/
def ConfigError.message : ConfigError → String
  | json fault => fault.message
  | mismatch m => m.message
  | unknownField name =>
    s!"unknown field `{name}`, expected one of `platform`, `runtimeVersion`, `environment`"
  | duplicateField name => s!"duplicate field `{name}`"
  | unknownPlatform text => Platform.unknownMessage text
  | invalidVersion text => Version.invalidMessage text
  | notLiteral => "data did not match any variant of untagged enum Literal"

namespace Config

/-- The configuration that is assumed when nothing is said. -/
def standard : Config :=
  ⟨Environment.standard.platform, Environment.standard.runtimeVersion, .empty⟩

/-- The environment of a configuration. -/
def toEnvironment (config : Config) : Environment :=
  ⟨config.platform, config.runtimeVersion, config.environment⟩

/-- The document of a configuration. -/
def toJson (config : Config) : Json :=
  .object
    [("platform", .string config.platform.name),
      ("runtimeVersion", .string config.runtimeVersion.text),
      ("environment", .object (config.environment.map Literal.toJson).entries)]

/-! ## Members -/

/-- The error of a value that is not of the expected type. -/
def mismatched (source : Json.Source) (expected : String) : ConfigError :=
  match source.describe with
  | .ok found => .mismatch (.type found expected)
  | .error fault => .json fault

/-- A text. -/
def readText : Json.Source → Except ConfigError String
  | .string s => .ok s
  | other => .error (mismatched other "a string")

/-- A platform by name. -/
def readPlatform (source : Json.Source) : Except ConfigError Platform :=
  match readText source with
  | .error e => .error e
  | .ok text =>
    match Platform.ofText? text with
    | some platform => .ok platform
    | none => .error (.unknownPlatform text)

/-- A version in text form. -/
def readVersion (source : Json.Source) : Except ConfigError Version :=
  match readText source with
  | .error e => .error e
  | .ok text =>
    match Version.ofText? text with
    | some version => .ok version
    | none => .error (.invalidVersion text)

/-- A value of the environment. -/
def readLiteral (source : Json.Source) : Except ConfigError Literal :=
  match source.toJson with
  | .error fault => .error (.json fault)
  | .ok json =>
    match Literal.ofJson? json with
    | some literal => .ok literal
    | none => .error .notLiteral

/-- The members of an environment, added to those in front of them. -/
def readValues (values : Table Literal) :
    List (String × Json.Source) → Except ConfigError (Table Literal)
  | [] => .ok values
  | (key, source) :: members =>
    match readLiteral source with
    | .error e => .error e
    | .ok literal => readValues (values.insert key literal) members

/-- What is left of a list or an object after its parts. -/
def readClose {α : Type} (close : Option Json.Fault) (value : α) : Except ConfigError α :=
  (Json.closing close value).mapError .json

/-- An environment. -/
def readEnvironment : Json.Source → Except ConfigError (Table Literal)
  | .object members close =>
    match readValues .empty members with
    | .error e => .error e
    | .ok values => readClose close values
  | other => .error (mismatched other "a map")

/-! ## Documents -/

/-- The members of a configuration that have been read. -/
structure Fields where
  platform : Option Platform
  runtimeVersion : Option Version
  environment : Option (Table Literal)

/-- No members. -/
def Fields.none : Fields := ⟨.none, .none, .none⟩

/-- The configuration of members, with the standard value for each that is missing. -/
def Fields.complete (fields : Fields) : Config :=
  ⟨fields.platform.getD standard.platform, fields.runtimeVersion.getD standard.runtimeVersion,
    fields.environment.getD standard.environment⟩

/-- One more member, which must be known and new. -/
def readField (fields : Fields) (key : String) (source : Json.Source) :
    Except ConfigError Fields :=
  if key = "platform" then
    if fields.platform.isSome then .error (.duplicateField key)
    else (readPlatform source).map fun platform => { fields with platform := some platform }
  else if key = "runtimeVersion" then
    if fields.runtimeVersion.isSome then .error (.duplicateField key)
    else (readVersion source).map fun version => { fields with runtimeVersion := some version }
  else if key = "environment" then
    if fields.environment.isSome then .error (.duplicateField key)
    else (readEnvironment source).map fun values => { fields with environment := some values }
  else .error (.unknownField key)

/-- The members of an object. -/
def readFields (fields : Fields) : List (String × Json.Source) → Except ConfigError Fields
  | [] => .ok fields
  | (key, source) :: members =>
    match readField fields key source with
    | .error e => .error e
    | .ok fields => readFields fields members

/-- The items of a list, as the members they stand for. -/
def readListed : List Json.Source → Except ConfigError Fields
  | [] => .ok .none
  | platform :: rest =>
    match readPlatform platform with
    | .error e => .error e
    | .ok platform =>
      match rest with
      | [] => .ok ⟨some platform, none, none⟩
      | version :: rest =>
        match readVersion version with
        | .error e => .error e
        | .ok version =>
          match rest with
          | [] => .ok ⟨some platform, some version, none⟩
          | environment :: _ =>
            (readEnvironment environment).map fun values =>
              ⟨some platform, some version, some values⟩

/-- The fault behind the items of a list.  Once all three members have been read the list has to
end, whatever else stands there. -/
def listedFault? (count : Nat) (close : Option Json.Fault) : Option Json.Fault :=
  if count < 3 then close
  else if 3 < count then some .trailingCharacters
  else
    match close with
    | some .expectedListCommaOrEnd => some .trailingCharacters
    | some .endInValue => some .trailingCharacters
    | close => close

/-- The configuration of the root of a document. -/
def ofSource : Json.Source → Except ConfigError Config
  | .object members close =>
    match readFields .none members with
    | .error e => .error e
    | .ok fields => readClose close fields.complete
  | .array items close =>
    match readListed items with
    | .error e => .error e
    | .ok fields => readClose (listedFault? items.length close) fields.complete
  | other => .error (mismatched other "struct Config")

/-- The configuration of a document. -/
def ofDocument (document : Json.Document) : Except ConfigError Config :=
  match ofSource document.root with
  | .error e => .error e
  | .ok config => readClose document.rest config

/-- The configuration in the bytes of a document. -/
def parse (text : List UInt8) : Except ConfigError Config :=
  ofDocument (Json.scan text)

end Config

end DeferredStyle
