import DeferredStyle.Platform
import DeferredStyle.Version

/-!
# Resolution errors

Why a decoded value has no value in a context.
-/

set_option autoImplicit false

namespace DeferredStyle

/-- Why a value could not be resolved. -/
inductive ResolveError where
  | missingOrInvalidAttribute (name reason : String)
  | unsupportedOnRuntime (shape : String) (platform : Platform) (required actual : Version)
  | argumentType (shape : String) (index : Nat) (expected found : String)
  | missingArgument (shape : String) (index : Nat)
  | invalidValue (shape reason : String)
  | unexpectedValue (expected found : String)
  deriving DecidableEq

/-- The text of a resolution error. -/
def ResolveError.message : ResolveError → String
  | .missingOrInvalidAttribute name reason => s!"attribute `{name}` is missing or invalid: {reason}"
  | .unsupportedOnRuntime shape platform required actual =>
    s!"`{shape}` requires {platform.name} {required.text}, running {actual.text}"
  | .argumentType shape index expected found =>
    s!"argument {index} of `{shape}` expected `{expected}` but resolved to `{found}`"
  | .missingArgument shape index => s!"`{shape}` has no argument {index}"
  | .invalidValue shape reason => s!"`{shape}`: {reason}"
  | .unexpectedValue expected found => s!"expected `{expected}` but resolved to `{found}`"

end DeferredStyle
