import DeferredStyle.Catalog.Shape

/-!
# Resolvable values

A decoded value that may still depend on the element and the environment it is applied to: a
constant, a reference to an attribute of the element, or a shape whose builder runs when the value
is resolved.

* `Resolvable.resolve` — the value in a context, or the error that keeps it from having one.
* `Resolvable.resolveAs` — the value as an element of a type.
* `Resolvable.attributeNames` — the attributes a value reads.
* `Resolvable.beq` — equality of decoded values, which looks at everything but builders.
-/

set_option autoImplicit false

namespace DeferredStyle

universe u

/-- A reference to an attribute, which is decoded when it is resolved. -/
structure AttributeBinding where
  name : String
  decoder : Leaf
  default : Option Value

/-- A shape that matched, with its children still to be resolved. -/
structure Deferred (R : Type u) where
  shape : String
  builder : Builder
  /-- The builder that is used when the gate does not let the shape pass. -/
  fallback : Option Builder
  gate : Option RuntimeGate
  children : List R

/-- A decoded value. -/
inductive Resolvable where
  | constant (value : Value)
  | bound (binding : AttributeBinding)
  | deferred (deferred : Deferred Resolvable)

/-! ## Attributes -/

namespace AttributeBinding

/-- The value of the attribute itself, or the reason why it has none. -/
def decode (binding : AttributeBinding) (context : Context) : Except String Value :=
  match context.attribute? binding.name with
  | some literal => binding.decoder.decodeAttribute literal
  | none => .error "attribute is not set"

/-- The value of the attribute, or the default. -/
def resolve (binding : AttributeBinding) (context : Context) : Except ResolveError Value :=
  match binding.decode context with
  | .ok value => .ok value
  | .error reason =>
    match binding.default with
    | some value => .ok value
    | none => .error (.missingOrInvalidAttribute binding.name reason)

end AttributeBinding

/-! ## Resolution -/

/-- The builder to use in an environment: the gate is asked before anything else. -/
def selectBuilder (shape : String) (builder : Builder) (fallback : Option Builder)
    (gate : Option RuntimeGate) (environment : Environment) : Except ResolveError Builder :=
  match gate with
  | none => .ok builder
  | some gate =>
    match gate.check environment with
    | .ok _ => .ok builder
    | .error required =>
      match fallback with
      | some fallback => .ok fallback
      | none =>
        .error (.unsupportedOnRuntime shape environment.platform required
          environment.runtimeVersion)

namespace Resolvable

mutual

/-- The value in a context. -/
def resolve (context : Context) : Resolvable → Except ResolveError Value
  | .constant value => .ok value
  | .bound binding => binding.resolve context
  | .deferred ⟨shape, builder, fallback, gate, children⟩ =>
    match selectBuilder shape builder fallback gate context.environment with
    | .error e => .error e
    | .ok builder => builder.build ⟨shape, resolveEach context children, some context.environment⟩

/-- Each of several values in a context. -/
def resolveEach (context : Context) : List Resolvable → List (Except ResolveError Value)
  | [] => []
  | child :: children => child.resolve context :: resolveEach context children

end

/-- A resolved value as an element of a type. -/
def castTo (α : Type) [FromValue α] (value : Value) : Except ResolveError α :=
  match (FromValue.fromValue? value : Option α) with
  | some a => .ok a
  | none => .error (.unexpectedValue (FromValue.kind α) value.kind)

/-- The value in a context, as an element of a type. -/
def resolveAs (α : Type) [FromValue α] (context : Context) (r : Resolvable) :
    Except ResolveError α :=
  match r.resolve context with
  | .error e => .error e
  | .ok value => castTo α value

/-! ## Constants and attributes -/

/-- The value of a constant. -/
def constant? : Resolvable → Option Value
  | .constant value => some value
  | _ => none

/-- Whether a value is constant. -/
def isConstant (r : Resolvable) : Bool :=
  r.constant?.isSome

/-- The values of resolvables that are all constant. -/
def constants? : List Resolvable → Option (List Value)
  | [] => some []
  | r :: rs =>
    match r.constant?, constants? rs with
    | some value, some values => some (value :: values)
    | _, _ => none

/-- A name behind others, unless it is among them. -/
def addName (names : List String) (name : String) : List String :=
  if names.contains name then names else names ++ [name]

mutual

/-- The attributes a value reads, behind `names` and without repetition. -/
def collectNames (names : List String) : Resolvable → List String
  | .constant _ => names
  | .bound binding => addName names binding.name
  | .deferred ⟨_, _, _, _, children⟩ => collectNamesEach names children

/-- The attributes several values read, behind `names` and without repetition. -/
def collectNamesEach (names : List String) : List Resolvable → List String
  | [] => names
  | child :: children => collectNamesEach (collectNames names child) children

end

/-- The attributes a value reads, in the order of their first use. -/
def attributeNames (r : Resolvable) : List String :=
  collectNames [] r

/-! ## Equality -/

mutual

/-- Whether two decoded values are the same.  Constants compare by value, references by name,
decoder and default, shapes by label, gate, presence of a fallback and children. -/
def beq : Resolvable → Resolvable → Bool
  | .constant a, .constant b => a == b
  | .bound a, .bound b =>
    a.name == b.name && a.decoder.name == b.decoder.name && a.default == b.default
  | .deferred ⟨shape, _, fallback, gate, children⟩,
    .deferred ⟨shape', _, fallback', gate', children'⟩ =>
    shape == shape' && gate == gate' && fallback.isSome == fallback'.isSome &&
      beqEach children children'
  | _, _ => false

/-- Whether the members of two lists of decoded values are the same, one by one. -/
def beqEach : List Resolvable → List Resolvable → Bool
  | [], [] => true
  | a :: as, b :: bs => beq a b && beqEach as bs
  | _, _ => false

end

instance : BEq Resolvable := ⟨beq⟩

end Resolvable

end DeferredStyle
