import DeferredStyle.Context
import DeferredStyle.Event
import DeferredStyle.Style.Value

/-!
# Builders

A builder makes the value of a shape from the resolved values of its parameters.  A parameter whose
value could not be resolved fails the builder only if the builder asks for it with `Args.value`;
`Args.optional` takes it for absent.

* `Args.value`, `Args.optional`, `Args.all` — the ways of asking.
* `Builder` — what is built, and what is reported about arguments that were ignored.
-/

set_option autoImplicit false

namespace DeferredStyle

/-- What a builder sees: its shape, the value or error of each parameter, and the environment, which
is absent while constants are folded. -/
structure Args where
  shape : String
  children : List (Except ResolveError Value)
  environment : Option Environment

namespace Args

/-- The number of parameters. -/
def size (args : Args) : Nat := args.children.length

/-- The value of a parameter as it is. -/
def get (args : Args) (index : Nat) : Except ResolveError Value :=
  match args.children[index]? with
  | some child => child
  | none => .error (.missingArgument args.shape index)

/-- The value of a parameter as an element of a type. -/
def value (α : Type) [FromValue α] (args : Args) (index : Nat) : Except ResolveError α :=
  match args.get index with
  | .error e => .error e
  | .ok v =>
    match (FromValue.fromValue? v : Option α) with
    | some a => .ok a
    | none => .error (.argumentType args.shape index (FromValue.kind α) v.kind)

/-- The value of a parameter as an element of a type, or nothing if it is absent, could not be
resolved or has another type. -/
def optional (α : Type) [FromValue α] (args : Args) (index : Nat) : Option α :=
  match args.children[index]? with
  | some (.ok .nil) => none
  | some (.ok v) => FromValue.fromValue? v
  | _ => none

/-- What `optional` ignored. -/
def ignored (α : Type) [FromValue α] (args : Args) (index : Nat) : List Event :=
  match args.children[index]? with
  | none => []
  | some (.ok .nil) => []
  | some (.ok v) =>
    match (FromValue.fromValue? v : Option α) with
    | some _ => []
    | none => [.ignoredType index args.shape (FromValue.kind α) v.kind]
  | some (.error e) => [.ignoredError index args.shape e]

/-- All values, or the first error among them. -/
def allOf : List (Except ResolveError Value) → Except ResolveError (List Value)
  | [] => .ok []
  | .error e :: _ => .error e
  | .ok v :: rest => (allOf rest).map (v :: ·)

/-- The values of all parameters, or the first error among them. -/
def all (args : Args) : Except ResolveError (List Value) :=
  allOf args.children

/-- Whether the environment is known and dark. -/
def isDark (args : Args) : Bool :=
  match args.environment with
  | some environment => environment.isDark
  | none => false

end Args

/-- How the value of a shape is made, and what is reported meanwhile. -/
structure Builder where
  build : Args → Except ResolveError Value
  events : Args → List Event

namespace Builder

/-- A builder that reports nothing. -/
def silent (build : Args → Except ResolveError Value) : Builder :=
  ⟨build, fun _ => []⟩

/-- A builder that makes the same value from any arguments. -/
def constant (value : Value) : Builder :=
  silent fun _ => .ok value

/-- A builder that makes the list of all its arguments. -/
def list : Builder :=
  silent fun args => args.all.map .list

end Builder

end DeferredStyle
