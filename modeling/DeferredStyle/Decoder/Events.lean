import DeferredStyle.Decoder.Basic

/-!
# Events of a decoding

What is reported while a node is decoded, in order: each shape that is tried, what its arguments
report, what its builder reports if the shape is folded, and how the attempt ended.

A term becomes a `Report` beside its reading, and binding carries the two together.
-/

set_option autoImplicit false

namespace DeferredStyle

/-- A term's reading, and what is reported while it is decoded under a rule. -/
structure Reported where
  reading : Reading
  events : Rule → List Event

/-- What a builder reports while a shape is folded. -/
def foldEvents (folds : Bool) (label : String) (shape : Shape) (children : List Resolvable) :
    List Event :=
  if !folds || shape.availability.runtimeGate.isSome || shape.contextual then []
  else
    match Resolvable.constants? children with
    | none => []
    | some values => shape.builder.events (foldingArgs label values)

/-- The binding of a parameter to a reading. -/
def Binding.reading : Binding Reported → Binding Reading
  | .given reported => .given reported.reading
  | .default literal => .default literal

/-- What is reported while parameters are decoded, up to the first that fails. -/
def paramEvents (registry : Registry) : List Param → List (Binding Reported) → List Event
  | param :: params, binding :: bindings =>
    let own :=
      match binding with
      | .given reported => reported.events param.rule
      | .default _ => []
    match decodeParam registry param binding.reading with
    | .error _ => own
    | .ok _ => own ++ paramEvents registry params bindings
  | _, _ => []

namespace Decoder

/-- What is reported while one shape is tried on arguments. -/
def shapeEvents (d : Decoder) (label : String) (shape : Shape)
    (arguments : List (Argument Reported)) : List Event :=
  match bindArguments shape.params arguments with
  | .error _ => []
  | .ok bindings =>
    paramEvents d.registry shape.params bindings ++
      match decodeParams d.registry shape.params (bindings.map Binding.reading) with
      | .error _ => []
      | .ok children => foldEvents d.folds label shape children

/-- What is reported while shapes are tried in order, up to the first that matches. -/
def attemptEvents (d : Decoder) (typeName nodeText : String)
    (arguments : List (Argument Reported)) : List Shape → List Event
  | [] => []
  | shape :: shapes =>
    let label := shape.label typeName
    .trying label nodeText :: d.shapeEvents label shape arguments ++
      match d.decodeShape label shape (arguments.map (Argument.map Reported.reading)) with
      | .ok _ => [.matched label]
      | .error e => .unmatched label e :: d.attemptEvents typeName nodeText arguments shapes

/-- What is reported when a case without parameters matches. -/
def caseEvents (d : Decoder) (typeName : String) (cases : List Shape) (name : Option String) :
    List Event :=
  match name with
  | none => []
  | some name =>
    match cases.find? fun shape => shape.caseName? == some name with
    | none => []
    | some shape =>
      .matchedCase name typeName :: foldEvents d.folds (shape.label typeName) shape []

/-- What is reported while the candidates of a catalog are tried. -/
def candidateEvents (d : Decoder) (catalog : Catalog) (candidates : List Shape)
    (name : Option String) (nodeText : String) (arguments : List (Argument Reported)) :
    List Event :=
  let typeName := catalog.typeName
  let attempt := fun shape : Shape =>
    d.decodeShape (shape.label typeName) shape (arguments.map (Argument.map Reported.reading))
  let shapes := candidates.filter (!·.isBareCase)
  d.attemptEvents typeName nodeText arguments shapes ++
    match firstMatch typeName attempt shapes with
    | .ok _ => []
    | .error _ => d.caseEvents typeName (candidates.filter (·.isBareCase)) name

/-- What is reported while a nested node is decoded under a rule. -/
def nestedEvents (d : Decoder) (rule : Rule) (events : Catalog → List Event) : List Event :=
  match rule.core with
  | .type name =>
    match d.registry.catalog? name with
    | some catalog => events catalog
    | none => []
  | _ => []

/-- What is reported while a list is decoded under a rule. -/
def listEvents (rule : Rule) (events : Rule → List Event) : List Event :=
  match rule.core with
  | .list item => events item
  | _ => []

mutual

/-- What is reported while a term is decoded under a rule. -/
def termEvents (d : Decoder) : Term → Rule → List Event
  | .literal _ => fun _ => []
  | .reference _ _ => fun _ => []
  | .call node => fun rule => d.nestedEvents rule (d.callEvents node)
  | .list items => fun rule => listEvents rule (d.itemEvents items)

/-- What is reported while the items of a list are decoded, up to the first that fails. -/
def itemEvents (d : Decoder) : List Term → Rule → List Event
  | [] => fun _ => []
  | item :: items => fun rule =>
    d.termEvents item rule ++
      match d.decodeTerm item rule "" none with
      | .error _ => []
      | .ok _ => d.itemEvents items rule

/-- What is reported while a call is decoded against a catalog. -/
def callEvents (d : Decoder) : Call Term → Catalog → List Event
  | ⟨tag, annotations, selector, arguments⟩ => fun catalog =>
    d.candidateEvents catalog (catalog.candidates selector)
      (trailingCaseName? selector arguments)
      (Node.text ⟨tag, annotations, selector, arguments⟩) (d.reports arguments)

/-- The readings of arguments, and what is reported during each. -/
def reports (d : Decoder) : List (Argument Term) → List (Argument Reported)
  | [] => []
  | ⟨label, value⟩ :: arguments =>
    ⟨label, ⟨d.decodeTerm value, d.termEvents value⟩⟩ :: d.reports arguments

end

/-- What is reported while a node is decoded as a registered type. -/
def typeEvents (d : Decoder) (node : Node) (typeName : String) : List Event :=
  match d.registry.catalog? typeName with
  | some catalog => d.callEvents node catalog
  | none => []

/-- What is reported while a node is decoded as a modifier. -/
def modifierEvents (d : Decoder) (node : Node) : List Event :=
  match d.registry.modifier? node.tag with
  | some catalog => d.callEvents node catalog
  | none => []

end Decoder

end DeferredStyle
