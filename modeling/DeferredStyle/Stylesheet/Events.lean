import DeferredStyle.Decoder.Events
import DeferredStyle.Resolvable.Events
import DeferredStyle.Stylesheet.Basic

/-!
# Events of a stylesheet

What is reported while a document is read and while classes are resolved.  Nodes are decoded as they
are read, so a document that turns out to be malformed has reported everything in front of the
malformed place.
-/

set_option autoImplicit false

namespace DeferredStyle

/-- What is reported about one modifier. -/
def nodeEvents (d : Decoder) (className : String) (index : Nat) (node : Node) : List Event :=
  d.modifierEvents node ++
    match d.decodeModifier node with
    | .ok _ => []
    | .error failures => [.droppedModifier index className failures]

/-- What is reported about the modifiers of a class up to a malformed one. -/
def classNodeEvents (d : Decoder) (className : String) (i : Nat) : List Json → List Event
  | [] => []
  | json :: jsons =>
    match Wire.readNode json with
    | .error _ => []
    | .ok node => nodeEvents d className i node ++ classNodeEvents d className (i + 1) jsons

/-- What is reported about the classes of a document up to a malformed place. -/
def memberEvents (d : Decoder) : List (String × Json) → List Event
  | [] => []
  | (className, .array jsons) :: members =>
    classNodeEvents d className 0 jsons ++
      match readClass className (.array jsons) with
      | .error _ => []
      | .ok _ => memberEvents d members
  | _ => []

/-- The modifiers of a class that have no value in a context, with their places among the modifiers
that were decoded. -/
def skippedEvents (className : String) (i : Nat) :
    List (Except ResolveError Modifier) → List Event
  | [] => []
  | .ok _ :: results => skippedEvents className (i + 1) results
  | .error e :: results => .skippedModifier i className e :: skippedEvents className (i + 1) results

namespace Stylesheet

/-- What is reported while a JSON document is read. -/
def readEvents (d : Decoder) (json : Json) : List Event :=
  match json with
  | .object members =>
    memberEvents d members ++
      match ofJson d json with
      | .error _ => []
      | .ok (sheet, diagnostics) =>
        [.loadedStylesheet sheet.classes.size d.registry.platform diagnostics.length]
  | _ => []

/-- What is reported while the bytes of a document are read. -/
def parseEvents (d : Decoder) (text : List UInt8) : List Event :=
  match Json.parse text with
  | .error _ => []
  | .ok json => readEvents d json

/-- What is reported while a class is resolved. -/
def resolveClassEvents (sheet : Stylesheet) (className : String) (context : Context) :
    List Event :=
  Resolvable.eventsEach context (sheet.modifiersOf className)

/-- What is reported while a class list is resolved. -/
def modifiersEvents (sheet : Stylesheet) (classList : String) (context : Context) : List Event :=
  (Text.words classList).flatMap fun className =>
    if sheet.classes.contains className then
      sheet.resolveClassEvents className context ++
        skippedEvents className 0 (sheet.resolveClass className context)
    else [.unknownClass className]

end Stylesheet

end DeferredStyle
