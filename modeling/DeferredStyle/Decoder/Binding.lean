import DeferredStyle.Catalog.Shape
import DeferredStyle.Failure.Decode

/-!
# Binding arguments to parameters

Labeled arguments go to the first parameter with their label, positional ones to the parameters
without a label, in order.  A parameter that is left over takes its default.

Arguments are generic in what they carry: binding looks at their labels only.

* `bindArguments` — one binding per parameter, or the first error.  Labels are checked first, in
  the order of the arguments; then the number of positional arguments; then, in the order of the
  parameters, whether each has an argument or a default.
-/

set_option autoImplicit false

namespace DeferredStyle

universe u

variable {V : Type u}

/-- What a parameter is bound to. -/
inductive Binding (V : Type u) where
  | given (value : V)
  | default (literal : Literal)

/-- The labels and values of the labeled arguments. -/
def labeledArguments : List (Argument V) → List (String × V)
  | [] => []
  | ⟨some label, value⟩ :: arguments => (label, value) :: labeledArguments arguments
  | ⟨none, _⟩ :: arguments => labeledArguments arguments

/-- The values of the positional arguments. -/
def positionalArguments : List (Argument V) → List V
  | [] => []
  | ⟨none, value⟩ :: arguments => value :: positionalArguments arguments
  | ⟨some _, _⟩ :: arguments => positionalArguments arguments

/-- The labels of parameters. -/
def paramLabels (params : List Param) : List String :=
  params.filterMap Param.label

/-- How many parameters take a positional argument. -/
def positionalCount (params : List Param) : Nat :=
  (params.filter fun param => param.label.isNone).length

/-- The first label that no parameter has, or that came before. -/
def labelError? (known seen : List String) : List (String × V) → Option DecodeError
  | [] => none
  | (label, _) :: rest =>
    if !known.contains label then some (.unknownArgument label)
    else if seen.contains label then some (.duplicateArgument label)
    else labelError? known (label :: seen) rest

/-- The binding of a parameter that no argument goes to. -/
def bindDefault (param : Param) : Except DecodeError (Binding V) :=
  match param.default with
  | some literal => .ok (.default literal)
  | none => .error (.missingArgument param.displayLabel)

/-- The bindings of parameters.  `taken` holds the labels of the parameters before them, which have
taken the arguments of these labels. -/
def fillParams (labeled : List (String × V)) (taken : List String) :
    List Param → List V → Except DecodeError (List (Binding V))
  | [], _ => .ok []
  | param :: params, positional =>
    match param.label, positional with
    | none, value :: positional =>
      (fillParams labeled taken params positional).map (.given value :: ·)
    | none, [] =>
      match bindDefault param with
      | .error e => .error e
      | .ok binding => (fillParams labeled taken params []).map (binding :: ·)
    | some label, positional =>
      match if taken.contains label then none else Table.lookup? label labeled with
      | some value =>
        (fillParams labeled (label :: taken) params positional).map (.given value :: ·)
      | none =>
        match bindDefault param with
        | .error e => .error e
        | .ok binding =>
          (fillParams labeled (label :: taken) params positional).map (binding :: ·)

/-- The bindings of a shape's parameters. -/
def bindArguments (params : List Param) (arguments : List (Argument V)) :
    Except DecodeError (List (Binding V)) :=
  let labeled := labeledArguments arguments
  let positional := positionalArguments arguments
  match labelError? (paramLabels params) [] labeled with
  | some e => .error e
  | none =>
    if positionalCount params < positional.length then
      .error (.tooManyArguments (positionalCount params) positional.length)
    else fillParams labeled [] params positional

end DeferredStyle
