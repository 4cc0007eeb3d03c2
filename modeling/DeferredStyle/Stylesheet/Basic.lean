import DeferredStyle.Decoder.Basic
import DeferredStyle.Text.Blank
import DeferredStyle.Wire.Reader

/-!
# Stylesheets

A stylesheet gives every class a list of modifiers.  Its document is an object that maps class names
to lists of modifier nodes.  A malformed node makes the whole document unreadable, wherever it
stands; a node that cannot be decoded only leaves its own modifier out, which is told by a
diagnostic.

* `readClasses` — the nodes of a document, class by class.
* `Stylesheet.ofClasses` — the decoded classes and the diagnostics.
* `Stylesheet.resolveClass`, `Stylesheet.modifiers` — the modifiers of a class and of a class list.
-/

set_option autoImplicit false

namespace DeferredStyle

/-- A modifier that could not be decoded. -/
structure Diagnostic where
  className : String
  /-- The place of the modifier in the document. -/
  index : Nat
  failures : DecodeFailures

/-- The text of a diagnostic. -/
def Diagnostic.message (d : Diagnostic) : String :=
  s!"class `{d.className}`, modifier {d.index}: {d.failures.text}"

/-- The decoded modifiers of every class, in the order of the document. -/
structure Stylesheet where
  classes : Table (List Resolvable)

/-! ## Documents -/

/-- The path of a class in a document. -/
def classPath (className : String) : String :=
  Wire.rootName ++ "." ++ className

/-- The path of an item of a list. -/
def itemPath (path : String) (index : Nat) : String :=
  pathText path [.index index]

/-- The node at a place of a document. -/
def readNodeAt (path : String) (json : Json) : Except WireError Node :=
  match Wire.readNode json with
  | .ok node => .ok node
  | .error m => .error (m.at path)

/-- The nodes of a list, the first of which has the index `i`. -/
def readClassNodes (path : String) (i : Nat) : List Json → Except WireError (List Node)
  | [] => .ok []
  | json :: jsons =>
    match readNodeAt (itemPath path i) json with
    | .error e => .error e
    | .ok node => (readClassNodes path (i + 1) jsons).map (node :: ·)

/-- The nodes of a class. -/
def readClass (className : String) : Json → Except WireError (List Node)
  | .array jsons => readClassNodes (classPath className) 0 jsons
  | _ => .error (.malformed (classPath className) .notModifierList)

/-- The nodes of several classes. -/
def readMembers : List (String × Json) → Except WireError (List (String × List Node))
  | [] => .ok []
  | (className, json) :: members =>
    match readClass className json with
    | .error e => .error e
    | .ok nodes => (readMembers members).map ((className, nodes) :: ·)

/-- The nodes of all classes of a document. -/
def readClasses : Json → Except WireError (List (String × List Node))
  | .object members => readMembers members
  | _ => .error (.malformed Wire.rootName .notClassObject)

/-! ## Decoding -/

/-- The modifiers of a class that can be decoded, in order. -/
def decodedModifiers (d : Decoder) : List Node → List Resolvable
  | [] => []
  | node :: nodes =>
    match d.decodeModifier node with
    | .ok r => r :: decodedModifiers d nodes
    | .error _ => decodedModifiers d nodes

/-- The diagnostics of a class, in order; the first node has the index `i`. -/
def classDiagnostics (d : Decoder) (className : String) (i : Nat) : List Node → List Diagnostic
  | [] => []
  | node :: nodes =>
    match d.decodeModifier node with
    | .ok _ => classDiagnostics d className (i + 1) nodes
    | .error failures => ⟨className, i, failures⟩ :: classDiagnostics d className (i + 1) nodes

namespace Stylesheet

/-- The stylesheet without classes. -/
def empty : Stylesheet := ⟨.empty⟩

/-- The stylesheet of the nodes of classes. -/
def ofClasses (d : Decoder) (classes : List (String × List Node)) : Stylesheet :=
  ⟨Table.ofList (classes.map fun (className, nodes) => (className, decodedModifiers d nodes))⟩

/-- What could not be decoded among the nodes of classes. -/
def diagnostics (d : Decoder) (classes : List (String × List Node)) : List Diagnostic :=
  classes.flatMap fun (className, nodes) => classDiagnostics d className 0 nodes

/-- The stylesheet of a JSON document, and what could not be decoded. -/
def ofJson (d : Decoder) (json : Json) : Except WireError (Stylesheet × List Diagnostic) :=
  (readClasses json).map fun classes => (ofClasses d classes, diagnostics d classes)

/-- The stylesheet in the bytes of a document, and what could not be decoded. -/
def parse (d : Decoder) (text : List UInt8) : Except WireError (Stylesheet × List Diagnostic) :=
  match Json.parse text with
  | .error fault => .error (.json fault)
  | .ok json => ofJson d json

/-! ## Classes -/

/-- The modifiers of a class. -/
def class? (sheet : Stylesheet) (className : String) : Option (List Resolvable) :=
  sheet.classes.find? className

/-- The modifiers of a class; an unknown class has none. -/
def modifiersOf (sheet : Stylesheet) (className : String) : List Resolvable :=
  (sheet.class? className).getD []

/-- The names of the classes, in increasing order. -/
def classNames (sheet : Stylesheet) : List String :=
  sheet.classes.keys

/-- The attributes that the modifiers of a class read, in the order of their first use. -/
def attributeNames (sheet : Stylesheet) (className : String) : List String :=
  Resolvable.collectNamesEach [] (sheet.modifiersOf className)

/-- Each modifier of a class in a context. -/
def resolveClass (sheet : Stylesheet) (className : String) (context : Context) :
    List (Except ResolveError Modifier) :=
  (sheet.modifiersOf className).map (Resolvable.resolveAs Modifier context)

/-- The modifiers of a list of classes that have a value in a context. -/
def modifiers (sheet : Stylesheet) (classList : String) (context : Context) : List Modifier :=
  (Text.words classList).flatMap fun className =>
    (sheet.resolveClass className context).filterMap Except.toOption

end Stylesheet

end DeferredStyle
