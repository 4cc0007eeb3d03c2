import DeferredStyle.Literal

/-!
# Call nodes

A serialized style is a tree of call expressions.  A call has a tag, annotations that say where it
was written, an optional selector and arguments; what an argument carries is a term.

`Call` and `Argument` are generic in what the arguments carry, so that the same argument list can
hold terms before and readings of them after decoding.

* `Term`, `Node` — the tree.
* `Term.text`, `Node.text` — the form of messages.
* `Node.member` — a member access.
-/

set_option autoImplicit false

namespace DeferredStyle

universe u v

/-- Where in the source of a stylesheet a call was written. -/
structure Annotations where
  file : Option String
  line : Option UInt64
  column : Option UInt64
  moduleName : Option String
  source : Option String
  deriving DecidableEq

/-- Annotations that say nothing. -/
def Annotations.empty : Annotations := ⟨none, none, none, none, none⟩

/-- Whether annotations say nothing. -/
def Annotations.isEmpty (a : Annotations) : Bool :=
  a.file.isNone && a.line.isNone && a.column.isNone && a.moduleName.isNone && a.source.isNone

/-- An argument with an optional label. -/
structure Argument (V : Type u) where
  label : Option String
  value : V

/-- A call expression. -/
structure Call (V : Type u) where
  tag : String
  annotations : Annotations
  /-- The member that is selected; nothing means the target's own type. -/
  selector : Option String
  arguments : List (Argument V)

/-- What an argument carries. -/
inductive Term where
  | literal (literal : Literal)
  | call (call : Call Term)
  /-- A reference to an attribute of the element a style is applied to. -/
  | reference (name : String) (annotations : Annotations)
  | list (items : List Term)

/-- A call whose arguments carry terms. -/
abbrev Node := Call Term

/-- The tag of a member access. -/
def memberTag : String := "."

/-- The tag of an attribute reference. -/
def attributeTag : String := "__attr__"

/-- Apply `f` to what an argument carries. -/
def Argument.map {V : Type u} {W : Type v} (f : V → W) (argument : Argument V) : Argument W :=
  ⟨argument.label, f argument.value⟩

/-- Whether an argument has a label. -/
def Argument.isLabeled {V : Type u} (argument : Argument V) : Bool :=
  argument.label.isSome

/-- Whether a call is a member access. -/
def Call.isMember {V : Type u} (call : Call V) : Bool :=
  call.tag == memberTag

/-- The member access without annotations. -/
def Node.member (selector : Option String) (arguments : List (Argument Term)) : Node :=
  ⟨memberTag, .empty, selector, arguments⟩

/-- The name of a term's class. -/
def Term.kind : Term → String
  | literal l => l.kind
  | call _ => "call"
  | reference _ _ => "attribute reference"
  | list _ => "list"

/-- Whether a term is a literal. -/
def Term.isLiteral : Term → Bool
  | literal _ => true
  | _ => false

/-! ## Text -/

/-- What a call is written with in front of its arguments. -/
def callHead (tag : String) (selector : Option String) : String :=
  if tag == memberTag then "." ++ selector.getD "" else tag

/-- An argument with the text of its value. -/
def labeledText (label : Option String) (value : String) : String :=
  match label with
  | some label => label ++ ": " ++ value
  | none => value

mutual

/-- A term as messages write it. -/
def Term.text : Term → String
  | .literal l => l.text
  | .call c => Node.text c
  | .reference name _ => "attr(\"" ++ name ++ "\")"
  | .list items => "[" ++ String.intercalate ", " (Term.itemTexts items) ++ "]"

/-- The texts of the items of a list. -/
def Term.itemTexts : List Term → List String
  | [] => []
  | item :: items => item.text :: Term.itemTexts items

/-- A call as messages write it. -/
def Node.text : Call Term → String
  | ⟨tag, _, selector, arguments⟩ =>
    callHead tag selector ++ "(" ++ String.intercalate ", " (Node.argumentTexts arguments) ++ ")"

/-- The texts of the arguments of a call. -/
def Node.argumentTexts : List (Argument Term) → List String
  | [] => []
  | ⟨label, value⟩ :: arguments =>
    labeledText label value.text :: Node.argumentTexts arguments

end

end DeferredStyle
