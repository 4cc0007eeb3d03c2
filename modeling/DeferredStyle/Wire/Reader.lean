import DeferredStyle.Json.Scanner
import DeferredStyle.Wire.Error
import DeferredStyle.Wire.Node

/-!
# Reading call nodes

A node is a list `[tag, annotations, arguments]`.  The arguments form a list whose first item, if it
is null or a string, is the selector.  An argument is an object with a `value` and an optional
`label`, or a bare value.  A list in the place of a value is an attribute reference if it is tagged
as one, a node if it has the outline of a node, and a list of values otherwise.

* `readNode`, `readTerm` — the grammar.
* `parseNode` — the node in the bytes of a document.
-/

set_option autoImplicit false

namespace DeferredStyle.Wire

/-- The result of reading a part of a document. -/
abbrev Result (α : Type) := Except Misreading α

/-- A part that was read one step further in. -/
def Result.under {α : Type} (step : Step) : Result α → Result α
  | .ok a => .ok a
  | .error m => .error (m.under step)

/-- The tag of a node; null stands for the tag of a member access. -/
def readTag : Json → Result String
  | .null => .ok memberTag
  | .string tag => .ok tag
  | other => .error (Malformation.tagKind other.kind).here

/-! ## Annotations -/

/-- An optional text among annotations. -/
def readText : Json → Except Json.Mismatch (Option String)
  | .null => .ok none
  | .string s => .ok (some s)
  | other => .error (.type other.describe "a string")

/-- An optional position among annotations. -/
def readPosition : Json → Except Json.Mismatch (Option UInt64)
  | .null => .ok none
  | .number (.natural n) => .ok (some n)
  | .number (.negative n) => .error (.value (Json.describeNumber (.negative n)) "usize")
  | other => .error (.type other.describe "usize")

/-- Annotations with one more member taken into account; unknown members mean nothing. -/
def readAnnotation (a : Annotations) (key : String) (value : Json) :
    Except Json.Mismatch Annotations :=
  if key = "file" then (readText value).map fun file => { a with file }
  else if key = "line" then (readPosition value).map fun line => { a with line }
  else if key = "column" then (readPosition value).map fun column => { a with column }
  else if key = "module" then (readText value).map fun moduleName => { a with moduleName }
  else if key = "source" then (readText value).map fun source => { a with source }
  else .ok a

/-- Annotations with all given members taken into account. -/
def readAnnotationMembers (a : Annotations) :
    List (String × Json) → Except Json.Mismatch Annotations
  | [] => .ok a
  | (key, value) :: members =>
    match readAnnotation a key value with
    | .ok a => readAnnotationMembers a members
    | .error mismatch => .error mismatch

/-- The annotations of a node. -/
def readAnnotations : Json → Result Annotations
  | .null => .ok .empty
  | .object members =>
    match readAnnotationMembers .empty members with
    | .ok a => .ok a
    | .error mismatch => .error (Malformation.annotationField mismatch).here
  | other => .error (Malformation.annotationsKind other.kind).here

/-! ## Nodes and terms -/

/-- An attribute reference, if a list is tagged as one. -/
def readAttribute? : List Json → Result (Option Term)
  | [.string tag, annotations, name] =>
    if tag = attributeTag then
      match (readAnnotations annotations).under (.index 1) with
      | .error m => .error m
      | .ok annotations =>
        match name with
        | .string name => .ok (some (.reference name annotations))
        | _ => .error (Malformation.attributeName.here.under (.index 2))
    else .ok none
  | _ => .ok none

/-- Whether the first item of a list can be a tag. -/
def isTagShaped : Json → Bool
  | .string _ => true
  | .null => true
  | _ => false

/-- Whether the second item of a list can be annotations. -/
def isAnnotationsShaped : Json → Bool
  | .object _ => true
  | .null => true
  | _ => false

/-- Whether a list has the outline of a node. -/
def isNodeShaped : List Json → Bool
  | [tag, annotations, .array _] => isTagShaped tag && isAnnotationsShaped annotations
  | _ => false

/-- The tag and the annotations of a node, which must not be an attribute reference. -/
def readHead (tag annotations : Json) : Result (String × Annotations) :=
  match (readTag tag).under (.index 0) with
  | .error m => .error m
  | .ok tag =>
    match (readAnnotations annotations).under (.index 1) with
    | .error m => .error m
    | .ok annotations =>
      if tag = attributeTag then .error Malformation.misplacedAttribute.here
      else .ok (tag, annotations)

/-- The first key of an argument other than `label` and `value`. -/
def unexpectedKey? : List (String × Json) → Option String
  | [] => none
  | (key, _) :: members =>
    if key = "label" ∨ key = "value" then unexpectedKey? members else some key

/-- The label of an argument. -/
def readLabel : Option Json → Result (Option String)
  | none => .ok none
  | some .null => .ok none
  | some (.string label) => .ok (some label)
  | some other => .error (Malformation.labelKind other.kind).here

/-- The argument of an object, given the reading of its member `value`. -/
def readLabeled (members : List (String × Json)) (value? : Option (Result Term)) :
    Result (Argument Term) :=
  match unexpectedKey? members with
  | some key => .error (Malformation.unexpectedKey key).here
  | none =>
    match value? with
    | none => .error Malformation.noValue.here
    | some value =>
      match readLabel (Table.lookup? "label" members) with
      | .error m => .error m
      | .ok label =>
        match value.under .value with
        | .error m => .error m
        | .ok value => .ok ⟨label, value⟩

/-- The node of a head and arguments. -/
def makeNode (head : String × Annotations) (selector : Option String)
    (arguments : Result (List (Argument Term))) : Result Node :=
  match arguments.under (.index 2) with
  | .error m => .error m
  | .ok arguments => .ok ⟨head.1, head.2, selector, arguments⟩

/-- The part with the index `i` in front of the parts behind it. -/
def consAt {α : Type} (i : Nat) (head : Result α) (tail : Result (List α)) : Result (List α) :=
  match head.under (.index i), tail with
  | .error m, _ => .error m
  | .ok _, .error m => .error m
  | .ok a, .ok as => .ok (a :: as)

/-- A value without a label. -/
def readBare (value : Result Term) : Result (Argument Term) :=
  value.map fun term => ⟨none, term⟩

mutual

/-- The term of a value. -/
def readTerm : Json → Result Term
  | .array items =>
    match readAttribute? items with
    | .error m => .error m
    | .ok (some reference) => .ok reference
    | .ok none =>
      if isNodeShaped items then (readElements items).map .call
      else (readItems 0 items).map .list
  | .object _ => .error Malformation.bareObject.here
  | .null => .ok (.literal .nil)
  | .bool b => .ok (.literal (.bool b))
  | .number n => .ok (.literal (.ofNumber n))
  | .string s => .ok (.literal (.string s))

/-- The terms of the items of a list, the first of which has the index `i`. -/
def readItems (i : Nat) : List Json → Result (List Term)
  | [] => .ok []
  | item :: items => consAt i (readTerm item) (readItems (i + 1) items)

/-- The node of the elements of a list. -/
def readElements : List Json → Result Node
  | [tag, annotations, .array arguments] =>
    match readHead tag annotations with
    | .error m => .error m
    | .ok head =>
      match arguments with
      | .null :: rest => makeNode head none (readArguments 1 rest)
      | .string selector :: rest => makeNode head (some selector) (readArguments 1 rest)
      | rest => makeNode head none (readArguments 0 rest)
  | [tag, annotations, _] =>
    match readHead tag annotations with
    | .error m => .error m
    | .ok _ => .error (Malformation.noArguments.here.under (.index 2))
  | elements => .error (Malformation.nodeLength elements.length).here

/-- The arguments of a node, the first of which has the index `i`: objects with a label and a value,
or bare values. -/
def readArguments (i : Nat) : List Json → Result (List (Argument Term))
  | [] => .ok []
  | .object members :: items =>
    consAt i (readLabeled members (readValueMember? members)) (readArguments (i + 1) items)
  | item :: items => consAt i (readBare (readTerm item)) (readArguments (i + 1) items)

/-- The reading of the member `value`, if there is one. -/
def readValueMember? : List (String × Json) → Option (Result Term)
  | [] => none
  | (key, value) :: members =>
    if key = "value" then some (readTerm value) else readValueMember? members

end

/-- The node of a value. -/
def readNode : Json → Result Node
  | .array elements => readElements elements
  | _ => .error Malformation.notNode.here

/-- The name of the starting point of every path into a document. -/
def rootName : String := "$"

/-- The node in the bytes of a document. -/
def parseNode (text : List UInt8) : Except WireError Node :=
  match Json.parse text with
  | .error fault => .error (.json fault)
  | .ok json =>
    match readNode json with
    | .error m => .error (m.at rootName)
    | .ok node => .ok node

end DeferredStyle.Wire
