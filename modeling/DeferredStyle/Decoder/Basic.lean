import DeferredStyle.Decoder.Binding
import DeferredStyle.Registry
import DeferredStyle.Resolvable.Basic

/-!
# Decoding nodes

A node is decoded against the shapes of a catalog.  Shapes with parameters, and initializers, are
tried first, in order; the first that takes the node's arguments wins.  The cases without parameters
come after them and are matched by name.  If nothing matches, every attempt is part of the failure.

A term becomes a `Reading`: its decoding under any rule.  A shape is then tried on arguments that
carry readings, so that the recursion over the tree stands apart from the search for a shape.

A shape whose children are all constant is folded: its builder runs at once and its value becomes a
constant.  Gated and contextual shapes are never folded, nor is a shape whose builder fails on the
constants.  A decoder with `folds := false` folds nothing.

* `Decoder.decodeTerm`, `Decoder.decode` — terms under a rule, nodes against a catalog.
* `Decoder.decodeType`, `Decoder.decodeModifier` — nodes against a registered catalog.
-/

set_option autoImplicit false

namespace DeferredStyle

/-- A decoder for the types of a registry. -/
structure Decoder where
  registry : Registry
  folds : Bool

/-- The decoder that folds. -/
def Registry.decoder (registry : Registry) : Decoder := ⟨registry, true⟩

/-- The decoding of a term under a rule, for a parameter with a label and a default. -/
abbrev Reading := Rule → String → Option Literal → Except DecodeError Resolvable

/-! ## Folding -/

/-- The arguments of a shape whose children are constant, in no environment. -/
def foldingArgs (label : String) (values : List Value) : Args :=
  ⟨label, values.map .ok, none⟩

/-- The constant that a shape folds to. -/
def folded? (label : String) (shape : Shape) (children : List Resolvable) : Option Value :=
  if shape.availability.runtimeGate.isSome || shape.contextual then none
  else
    match Resolvable.constants? children with
    | none => none
    | some values => (shape.builder.build (foldingArgs label values)).toOption

/-- The shape with its children still to be resolved. -/
def deferShape (label : String) (shape : Shape) (children : List Resolvable) : Resolvable :=
  .deferred ⟨label, shape.builder, shape.fallback, shape.availability.runtimeGate, children⟩

/-- A shape that matched. -/
def finishShape (folds : Bool) (label : String) (shape : Shape) (children : List Resolvable) :
    Resolvable :=
  match if folds then folded? label shape children else none with
  | some value => .constant value
  | none => deferShape label shape children

/-- A list of items. -/
def finishList (folds : Bool) (rule : Rule) (items : List Resolvable) : Resolvable :=
  match if folds then Resolvable.constants? items else none with
  | some values => .constant (.list values)
  | none => .deferred ⟨rule.text, .list, none, none, items⟩

/-! ## Literals and attributes -/

/-- The error of a value that is none of the rule. -/
def incorrect (label : String) (rule : Rule) (found : Term) : DecodeError :=
  .incorrectValue label rule.text found.text

/-- The value of a leaf decoder's rule for documents. -/
def decodeLeaf (leaf : Leaf) (rule : Rule) (label : String) (literal : Literal) :
    Except DecodeError Value :=
  match leaf.decodeLiteral literal with
  | .ok value => .ok value
  | .error _ => .error (incorrect label rule (.literal literal))

/-- The value of a literal under a rule that is not optional. -/
def decodeCoreLiteral (registry : Registry) (rule : Rule) (label : String) (literal : Literal) :
    Except DecodeError Value :=
  match rule with
  | .leaf leaf => decodeLeaf leaf rule label literal
  | .type name =>
    match registry.catalog? name with
    | none => .error (.unknownType name)
    | some catalog =>
      match catalog.literal with
      | none => .error (incorrect label rule (.literal literal))
      | some leaf => decodeLeaf leaf rule label literal
  | _ => .error (incorrect label rule (.literal literal))

/-- The value of a literal under a rule. -/
def decodeLiteral (registry : Registry) (rule : Rule) (label : String) (literal : Literal) :
    Except DecodeError Value :=
  match rule, literal with
  | .optional _, .nil => .ok .nil
  | rule, literal => decodeCoreLiteral registry rule.core label literal

/-- The value of a default, which is decoded by the parameter's own rule. -/
def decodeDefault (registry : Registry) (rule : Rule) (label : String) (literal : Literal) :
    Except DecodeError Value :=
  match decodeLiteral registry rule label literal with
  | .ok value => .ok value
  | .error _ => .error (.invalidDefault label rule.text)

/-- The decoder of attributes for a rule. -/
def attributeLeaf? (registry : Registry) (rule : Rule) : Option Leaf :=
  match rule.core with
  | .leaf leaf => some leaf
  | .type name => (registry.catalog? name).bind Catalog.literal
  | _ => none

/-- A reference to an attribute under a rule. -/
def bindAttribute (registry : Registry) (rule : Rule) (label : String)
    (default : Option Literal) (name : String) : Except DecodeError Resolvable :=
  match attributeLeaf? registry rule with
  | none => .error (.notAttributeDecodable rule.text name)
  | some leaf =>
    match default with
    | none => .ok (.bound ⟨name, leaf, none⟩)
    | some literal =>
      match decodeDefault registry rule label literal with
      | .error e => .error e
      | .ok value => .ok (.bound ⟨name, leaf, some value⟩)

/-! ## Shapes -/

/-- The value of a parameter. -/
def decodeParam (registry : Registry) (param : Param) :
    Binding Reading → Except DecodeError Resolvable
  | .given reading => reading param.rule param.displayLabel param.default
  | .default literal =>
    (decodeDefault registry param.rule param.displayLabel literal).map .constant

/-- The values of parameters, up to the first error. -/
def decodeParams (registry : Registry) :
    List Param → List (Binding Reading) → Except DecodeError (List Resolvable)
  | param :: params, binding :: bindings =>
    match decodeParam registry param binding with
    | .error e => .error e
    | .ok child => (decodeParams registry params bindings).map (child :: ·)
  | _, _ => .ok []

/-- The children of a shape on arguments. -/
def decodeChildren (registry : Registry) (shape : Shape) (arguments : List (Argument Reading)) :
    Except DecodeError (List Resolvable) :=
  match bindArguments shape.params arguments with
  | .error e => .error e
  | .ok bindings => decodeParams registry shape.params bindings

/-- One shape on arguments. -/
def Decoder.decodeShape (d : Decoder) (label : String) (shape : Shape)
    (arguments : List (Argument Reading)) : Except DecodeError Resolvable :=
  (decodeChildren d.registry shape arguments).map (finishShape d.folds label shape)

/-- The first shape that matches, or every attempt. -/
def firstMatch (typeName : String) (attempt : Shape → Except DecodeError Resolvable) :
    List Shape → Except (List (Attempt DecodeError)) Resolvable
  | [] => .error []
  | shape :: shapes =>
    match attempt shape with
    | .ok r => .ok r
    | .error e =>
      match firstMatch typeName attempt shapes with
      | .ok r => .ok r
      | .error attempts => .error (⟨shape.label typeName, e⟩ :: attempts)

/-- The name by which a node may write a case without parameters: its selector if it has no
arguments, or its only argument if that is a text without a label. -/
def trailingCaseName? (selector : Option String) : List (Argument Term) → Option String
  | [] => selector
  | [⟨none, .literal (.string name)⟩] => some name
  | _ => none

/-- The case with the given name among cases without parameters.  Where there is no such case at
all, there is nothing to try. -/
def matchCase (folds : Bool) (typeName : String) (cases : List Shape) (name : Option String) :
    Except (List (Attempt DecodeError)) Resolvable :=
  match cases, name with
  | [], _ => .error []
  | _, none => .error [⟨"_", .missingCaseName⟩]
  | cases, some name =>
    match cases.find? fun shape => shape.caseName? == some name with
    | some shape => .ok (finishShape folds (shape.label typeName) shape [])
    | none => .error [⟨name, .unknownCase name (cases.filterMap Shape.caseName?)⟩]

/-- The candidates of a catalog: first those with parameters, then the cases without. -/
def Decoder.decodeCandidates (d : Decoder) (catalog : Catalog) (candidates : List Shape)
    (name : Option String) (annotations : Annotations) (arguments : List (Argument Reading)) :
    Except DecodeFailures Resolvable :=
  let typeName := catalog.typeName
  let attempt := fun shape : Shape => d.decodeShape (shape.label typeName) shape arguments
  match firstMatch typeName attempt (candidates.filter (!·.isBareCase)) with
  | .ok r => .ok r
  | .error attempts =>
    match matchCase d.folds typeName (candidates.filter (·.isBareCase)) name with
    | .ok r => .ok r
    | .error attempts' => .error ⟨typeName, attempts ++ attempts', annotations⟩

/-! ## Terms and nodes -/

/-- A nested node under a rule: the rule must name a registered type. -/
def decodeNested (registry : Registry) (rule : Rule) (label : String) (found : Term)
    (decode : Catalog → Except DecodeFailures Resolvable) : Except DecodeError Resolvable :=
  match rule with
  | .type name =>
    match registry.catalog? name with
    | none => .error (.unknownType name)
    | some catalog =>
      match decode catalog with
      | .ok r => .ok r
      | .error failures => .error (.nested label failures)
  | _ => .error (incorrect label rule found)

/-- A list under a rule: the rule must be a list of items. -/
def decodeList (folds : Bool) (rule : Rule) (label : String) (found : Term)
    (decode : Rule → Except DecodeError (List Resolvable)) : Except DecodeError Resolvable :=
  match rule with
  | .list item =>
    match decode item with
    | .ok items => .ok (finishList folds rule items)
    | .error e => .error e
  | _ => .error (incorrect label rule found)

namespace Decoder

mutual

/-- A term under a rule. -/
def decodeTerm (d : Decoder) : Term → Reading
  | .literal literal => fun rule label _ =>
    (decodeLiteral d.registry rule label literal).map .constant
  | .reference name _ => fun rule label default =>
    bindAttribute d.registry rule label default name
  | .call node => fun rule label _ =>
    decodeNested d.registry rule.core label (.call node) (d.decodeCall node)
  | .list items => fun rule label _ =>
    decodeList d.folds rule.core label (.list items) fun item => d.decodeItems items item label

/-- The items of a list under a rule, up to the first error. -/
def decodeItems (d : Decoder) :
    List Term → Rule → String → Except DecodeError (List Resolvable)
  | [] => fun _ _ => .ok []
  | item :: items => fun rule label =>
    match d.decodeTerm item rule label none with
    | .error e => .error e
    | .ok r => (d.decodeItems items rule label).map (r :: ·)

/-- A call against a catalog. -/
def decodeCall (d : Decoder) : Call Term → Catalog → Except DecodeFailures Resolvable
  | ⟨_, annotations, selector, arguments⟩ => fun catalog =>
    d.decodeCandidates catalog (catalog.candidates selector)
      (trailingCaseName? selector arguments) annotations (d.readings arguments)

/-- The readings of arguments. -/
def readings (d : Decoder) : List (Argument Term) → List (Argument Reading)
  | [] => []
  | ⟨label, value⟩ :: arguments => ⟨label, d.decodeTerm value⟩ :: d.readings arguments

end

/-- A node against a catalog. -/
def decode (d : Decoder) (node : Node) (catalog : Catalog) : Except DecodeFailures Resolvable :=
  d.decodeCall node catalog

/-- A node as a registered type. -/
def decodeType (d : Decoder) (node : Node) (typeName : String) :
    Except DecodeFailures Resolvable :=
  match d.registry.catalog? typeName with
  | some catalog => d.decode node catalog
  | none => .error (.single typeName (.unknownType typeName) node.annotations)

/-- A node as a modifier, which its tag names. -/
def decodeModifier (d : Decoder) (node : Node) : Except DecodeFailures Resolvable :=
  match d.registry.modifier? node.tag with
  | some catalog => d.decode node catalog
  | none => .error (.single node.tag (.unknownModifier node.tag) node.annotations)

end Decoder

end DeferredStyle
