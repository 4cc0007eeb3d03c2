import DeferredStyle.Failure.Decode
import DeferredStyle.Failure.Resolve

/-!
# Events

What the library reports while it works, apart from its results.  An event has a level and a text.
-/

set_option autoImplicit false

namespace DeferredStyle

/-- How much an event matters, most first. -/
inductive Level where
  | error
  | warn
  | info
  | debug
  | trace
  deriving DecidableEq

namespace Level

/-- The name of a level. -/
def name : Level → String
  | error => "ERROR"
  | warn => "WARN"
  | info => "INFO"
  | debug => "DEBUG"
  | trace => "TRACE"

/-- The place of a level, from what matters most. -/
def rank : Level → Nat
  | error => 0
  | warn => 1
  | info => 2
  | debug => 3
  | trace => 4

end Level

/-- Something that happened. -/
inductive Event where
  | filteredShapes (count : Nat) (platform : Platform)
  | loadedVocabulary (types modifiers : Nat) (platform : Platform)
  | trying (shape node : String)
  | matched (shape : String)
  | unmatched (shape : String) (error : DecodeError)
  | matchedCase (name typeName : String)
  | usedDefault (attributeName reason : String)
  | usedFallback (shape : String) (platform : Platform) (required actual : Version)
  | ignoredType (index : Nat) (shape expected found : String)
  | ignoredError (index : Nat) (shape : String) (error : ResolveError)
  | droppedModifier (index : Nat) (className : String) (failures : DecodeFailures)
  | unknownClass (className : String)
  | skippedModifier (index : Nat) (className : String) (error : ResolveError)
  | loadedStylesheet (classes : Nat) (platform : Platform) (diagnostics : Nat)

namespace Event

/-- The level of an event. -/
def level : Event → Level
  | ignoredType _ _ _ _ => .warn
  | ignoredError _ _ _ => .warn
  | droppedModifier _ _ _ => .warn
  | unknownClass _ => .warn
  | skippedModifier _ _ _ => .warn
  | loadedStylesheet _ _ _ => .info
  | _ => .debug

/-- The text of an event. -/
def message : Event → String
  | filteredShapes count platform =>
    s!"Filtered {count} shape(s) unavailable on {platform.name}"
  | loadedVocabulary types modifiers platform =>
    s!"Loaded {types} type catalogs and {modifiers} modifier catalogs for {platform.name}"
  | trying shape node => s!"Trying `{shape}` for {node}"
  | matched shape => s!"Matched `{shape}`"
  | unmatched shape error => s!"`{shape}` did not match: {error.message}"
  | matchedCase name typeName => s!"Matched case `.{name}` of `{typeName}`"
  | usedDefault attributeName reason =>
    s!"Attribute `{attributeName}` fell back to default: {reason}"
  | usedFallback shape platform required actual =>
    s!"`{shape}` needs {platform.name} {required.text}, using fallback on {actual.text}"
  | ignoredType index shape expected found =>
    s!"Ignoring argument {index} of `{shape}`: expected `{expected}`, got `{found}`"
  | ignoredError index shape error => s!"Ignoring argument {index} of `{shape}`: {error.message}"
  | droppedModifier index className failures =>
    s!"Dropping modifier {index} of class `{className}`: {failures.text}"
  | unknownClass className => s!"Unknown class `{className}`"
  | skippedModifier index className error =>
    s!"Skipping modifier {index} of class `{className}`: {error.message}"
  | loadedStylesheet classes platform diagnostics =>
    s!"Loaded stylesheet with {classes} classes for {platform.name} ({diagnostics} diagnostics)"

/-- An event as a log line. -/
def line (event : Event) : String :=
  event.level.name ++ " " ++ event.message

end Event

end DeferredStyle
