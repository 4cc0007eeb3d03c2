/-!
# Platforms

The operating systems that styles are written for.

* `Platform.all` — every platform, in the order they are listed in.
* `Platform.ofText?` — a platform's name in any ASCII letter case.
-/

set_option autoImplicit false

namespace DeferredStyle

/-- An operating system. -/
inductive Platform where
  | ios
  | macos
  | tvos
  | watchos
  | visionos
  deriving DecidableEq

namespace Platform

/-- Every platform. -/
def all : List Platform := [ios, macos, tvos, watchos, visionos]

/-- The name of a platform. -/
def name : Platform → String
  | ios => "iOS"
  | macos => "macOS"
  | tvos => "tvOS"
  | watchos => "watchOS"
  | visionos => "visionOS"

/-- A text with its ASCII letters in lower case. -/
def lowerCase (text : String) : String :=
  String.ofList (text.toList.map Char.toLower)

/-- The platform with the given name, whatever the case of its ASCII letters. -/
def ofText? (text : String) : Option Platform :=
  match lowerCase text with
  | "ios" => some ios
  | "macos" => some macos
  | "tvos" => some tvos
  | "watchos" => some watchos
  | "visionos" => some visionos
  | _ => none

/-- The message for a text that names no platform. -/
def unknownMessage (text : String) : String :=
  s!"unknown platform `{text}`"

end Platform

end DeferredStyle
