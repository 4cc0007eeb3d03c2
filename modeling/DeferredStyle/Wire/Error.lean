import DeferredStyle.Json.Mismatch

/-!
# Malformed nodes

A `Misreading` tells what is wrong and the steps from the value that was read to the place where it
is wrong.  It knows nothing of where the value itself came from: the place is completed by
`Misreading.at`.

* `Malformation` — what can be wrong, with its text.
* `WireError` — why a document could not be read.
-/

set_option autoImplicit false

namespace DeferredStyle

/-- One step into a JSON value: to an item of a list, or to the value of an argument. -/
inductive Step where
  | index (i : Nat)
  | value
  deriving DecidableEq

/-- A step as paths write it. -/
def Step.text : Step → String
  | index i => s!"[{i}]"
  | value => ".value"

/-- A path: the name of a starting point followed by steps. -/
def pathText (start : String) (steps : List Step) : String :=
  steps.foldl (fun path step => path ++ step.text) start

/-- What is wrong with a node. -/
inductive Malformation where
  | notNode
  | nodeLength (found : Nat)
  | tagKind (found : String)
  | annotationsKind (found : String)
  | annotationField (mismatch : Json.Mismatch)
  | misplacedAttribute
  | noArguments
  | unexpectedKey (key : String)
  | noValue
  | labelKind (found : String)
  | attributeName
  | bareObject
  | notClassObject
  | notModifierList

/-- The text of a malformation. -/
def Malformation.message : Malformation → String
  | notNode => "expected a `[tag, annotations, arguments]` node"
  | nodeLength found => s!"expected 3 node elements, found {found}"
  | tagKind found => s!"node tag must be a string or null, found {found}"
  | annotationsKind found => s!"annotations must be an object or null, found {found}"
  | annotationField mismatch => "invalid annotations: " ++ mismatch.message
  | misplacedAttribute => "attribute references are only valid in argument position"
  | noArguments => "missing nested argument container"
  | unexpectedKey key => s!"unexpected key `{key}` in argument"
  | noValue => "argument is missing `value`"
  | labelKind found => s!"argument label must be a string, found {found}"
  | attributeName => "attribute reference needs a string attribute name"
  | bareObject => "objects are only valid as `\x7blabel, value\x7d` arguments"
  | notClassObject => "expected an object mapping class names to modifiers"
  | notModifierList => "expected an array of modifier nodes"

/-- What is wrong, and where in the value that was read. -/
structure Misreading where
  steps : List Step
  malformation : Malformation

/-- A misreading of the very value that was read. -/
def Malformation.here (malformation : Malformation) : Misreading :=
  ⟨[], malformation⟩

/-- A misreading one step further out. -/
def Misreading.under (step : Step) (m : Misreading) : Misreading :=
  ⟨step :: m.steps, m.malformation⟩

/-- Why a document could not be read. -/
inductive WireError where
  | json (fault : Json.Fault)
  | malformed (path : String) (malformation : Malformation)

/-- A misreading of the value at `start`. -/
def Misreading.at (start : String) (m : Misreading) : WireError :=
  .malformed (pathText start m.steps) m.malformation

/-- The text of a wire error. -/
def WireError.message : WireError → String
  | json fault => "invalid stylesheet JSON: " ++ fault.message
  | malformed path malformation =>
    let message := malformation.message
    s!"malformed node at {path}: {message}"

end DeferredStyle
