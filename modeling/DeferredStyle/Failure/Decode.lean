import DeferredStyle.Text.Split
import DeferredStyle.Wire.Node

/-!
# Decoding failures

A node that matches no shape of a catalog fails with one attempt per shape that was tried, in order.
An attempt fails with a `DecodeError`, which may hold the failures of a nested node.

`Failures` and `Attempt` are generic in the error so that the error can contain them.

* `DecodeError.message`, `Failures.text` — the texts; every line of an attempt's error is indented
  below the shape it belongs to.
-/

set_option autoImplicit false

namespace DeferredStyle

universe u

/-- A shape that was tried and why it did not match. -/
structure Attempt (E : Type u) where
  shape : String
  error : E

/-- Every attempt at one node, in order. -/
structure Failures (E : Type u) where
  typeName : String
  entries : List (Attempt E)
  annotations : Annotations

/-- Why a shape did not match. -/
inductive DecodeError where
  | missingArgument (label : String)
  | unknownArgument (label : String)
  | duplicateArgument (label : String)
  | tooManyArguments (expected found : Nat)
  | incorrectValue (label expected found : String)
  | notAttributeDecodable (typeName attributeName : String)
  | unknownCase (name : String) (expected : List String)
  | missingCaseName
  | unknownType (name : String)
  | unknownModifier (name : String)
  | invalidDefault (label expected : String)
  | nested (label : String) (failures : Failures DecodeError)

/-- The failures of a node. -/
abbrev DecodeFailures := Failures DecodeError

/-- Items in backquotes, separated by commas. -/
def quotedList (items : List String) : String :=
  String.intercalate ", " (items.map fun item => s!"`{item}`")

/-- The first line about an attempt and the lines of its error. -/
def attemptText (shape message : String) : String :=
  s!"\n  `{shape}` failed:" ++
    String.join ((Text.lines message).map fun line => s!"\n    {line}")

mutual

/-- The text of an error. -/
def DecodeError.message : DecodeError → String
  | .missingArgument label => s!"missing required argument `{label}`"
  | .unknownArgument label => s!"unknown labeled argument `{label}`"
  | .duplicateArgument label => s!"got multiple values for argument `{label}`"
  | .tooManyArguments expected found =>
    s!"expected at most {expected} positional arguments, got {found}"
  | .incorrectValue label expected found =>
    s!"incorrect value passed to argument `{label}`: expected `{expected}` but got `{found}`"
  | .notAttributeDecodable typeName attributeName =>
    s!"`{typeName}` cannot be bound to attribute `{attributeName}`"
  | .unknownCase name expected =>
    let cases := quotedList expected
    s!"no case named `{name}`, expected one of {cases}"
  | .missingCaseName => "expected a case name"
  | .unknownType name => s!"unknown type `{name}`"
  | .unknownModifier name => s!"unknown modifier `{name}`"
  | .invalidDefault label expected =>
    s!"default for argument `{label}` is not a constant `{expected}`"
  | .nested label failures => s!"argument `{label}`:\n" ++ DecodeError.failuresText failures

/-- The text of failures. -/
def DecodeError.failuresText : Failures DecodeError → String
  | ⟨typeName, entries, _⟩ =>
    s!"no matching shape for `{typeName}`" ++ String.join (DecodeError.attemptTexts entries)

/-- The texts of attempts. -/
def DecodeError.attemptTexts : List (Attempt DecodeError) → List String
  | [] => []
  | ⟨shape, error⟩ :: entries =>
    attemptText shape error.message :: DecodeError.attemptTexts entries

end

/-- The text of failures. -/
def Failures.text (failures : DecodeFailures) : String :=
  DecodeError.failuresText failures

/-- The shapes that were tried. -/
def Failures.shapes {E : Type u} (failures : Failures E) : List String :=
  failures.entries.map Attempt.shape

/-- The failures of a node for which there was nothing to try. -/
def DecodeFailures.single (typeName : String) (error : DecodeError) (annotations : Annotations) :
    DecodeFailures :=
  ⟨typeName, [⟨typeName, error⟩], annotations⟩

end DeferredStyle
