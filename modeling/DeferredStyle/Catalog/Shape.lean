import DeferredStyle.Availability
import DeferredStyle.Catalog.Builder
import DeferredStyle.Catalog.Leaf

/-!
# Shapes

A shape is one way to write a value of a type: what it is called, its parameters, where it is
available, and the builder of its value.

* `Rule` — how the argument of a parameter is decoded.
* `Param` — a parameter with an optional label and an optional default.
* `Shape` — the shape, and `Shape.label`, its form in messages.
-/

set_option autoImplicit false

namespace DeferredStyle

/-- How an argument is decoded. -/
inductive Rule where
  | leaf (leaf : Leaf)
  /-- A value of the type with this name. -/
  | type (name : String)
  | list (item : Rule)
  /-- Nil, or a value of the inner rule. -/
  | optional (inner : Rule)

namespace Rule

/-- A rule as messages write it. -/
def text : Rule → String
  | leaf l => l.name
  | type name => name
  | list item => "[" ++ item.text ++ "]"
  | optional inner => inner.text ++ "?"

/-- The rule behind all optionals. -/
def core : Rule → Rule
  | optional inner => inner.core
  | rule => rule

end Rule

/-- A parameter; without a label it takes a positional argument. -/
structure Param where
  label : Option String
  rule : Rule
  default : Option Literal

namespace Param

/-- A positional parameter. -/
def positional (rule : Rule) : Param := ⟨none, rule, none⟩

/-- A labeled parameter. -/
def labeled (label : String) (rule : Rule) : Param := ⟨some label, rule, none⟩

/-- The parameter with a default. -/
def withDefault (param : Param) (literal : Literal) : Param :=
  { param with default := some literal }

/-- The label as messages write it. -/
def displayLabel (param : Param) : String := param.label.getD "_"

end Param

/-- What a shape is. -/
inductive ShapeKind where
  /-- A case with parameters. -/
  | enumCase (name : String)
  /-- A case without parameters, written by its name alone. -/
  | bareCase (name : String)
  | initializer
  | staticFunction (name : String)
  /-- A method of a value, which is its first parameter. -/
  | method (base : Rule) (name : String)

/-- One way to write a value of a type. -/
structure Shape where
  kind : ShapeKind
  params : List Param
  /-- The selectors that pick the shape out of its catalog. -/
  keys : List String
  availability : Availability
  builder : Builder
  /-- The builder on systems that are too old. -/
  fallback : Option Builder
  /-- Whether the builder reads the environment, so that its value is never constant. -/
  contextual : Bool

namespace Shape

/-- A shape that is available everywhere, has no fallback and does not read the environment. -/
def plain (kind : ShapeKind) (params : List Param) (keys : List String) (builder : Builder) :
    Shape :=
  ⟨kind, params, keys, .everywhere, builder, none, false⟩

/-- A case with parameters, picked by its name. -/
def enumCase (name : String) (params : List Param) (builder : Builder) : Shape :=
  plain (.enumCase name) params [name] builder

/-- A case without parameters, picked by its name. -/
def bareCase (name : String) (builder : Builder) : Shape :=
  plain (.bareCase name) [] [name] builder

/-- An initializer, which no selector picks. -/
def initializer (params : List Param) (builder : Builder) : Shape :=
  plain .initializer params [] builder

/-- A static function, picked by its name. -/
def staticFunction (name : String) (params : List Param) (builder : Builder) : Shape :=
  plain (.staticFunction name) params [name] builder

/-- A method, picked by its name; the value it is called on is its first positional parameter. -/
def method (base : Rule) (name : String) (params : List Param) (builder : Builder) : Shape :=
  plain (.method base name) (.positional base :: params) [name] builder

/-- The shape with a place and time of its introduction. -/
def available (shape : Shape) (availability : Availability) : Shape :=
  { shape with availability }

/-- The shape with another builder for systems that are too old. -/
def withFallback (shape : Shape) (builder : Builder) : Shape :=
  { shape with fallback := some builder }

/-- The shape with other selectors. -/
def keyedBy (shape : Shape) (keys : List String) : Shape :=
  { shape with keys }

/-- The shape with a builder that reads the environment. -/
def asContextual (shape : Shape) : Shape :=
  { shape with contextual := true }

/-- The name of a case without parameters. -/
def caseName? (shape : Shape) : Option String :=
  match shape.kind with
  | .bareCase name => some name
  | _ => none

/-- Whether the shape is a case without parameters. -/
def isBareCase (shape : Shape) : Bool :=
  shape.caseName?.isSome

/-- Whether a selector picks the shape. -/
def isKeyedBy (shape : Shape) (selector : String) : Bool :=
  shape.keys.contains selector

/-- The labels of parameters, each followed by a colon. -/
def clause (params : List Param) : String :=
  String.join (params.map fun param => param.displayLabel ++ ":")

/-- The shape as messages write it. -/
def label (shape : Shape) (typeName : String) : String :=
  let clauses := clause shape.params
  match shape.kind with
  | .enumCase name => s!".{name}({clauses})"
  | .bareCase name => s!".{name}"
  | .initializer => s!"{typeName}({clauses})"
  | .staticFunction name => s!".{name}({clauses})"
  | .method base name =>
    let rest := clause (shape.params.drop 1)
    s!"{base.text}.{name}({rest})"

end Shape

end DeferredStyle
