import DeferredStyle.Style.Value
import DeferredStyle.Text.Blank

/-!
# Leaf decoders

A leaf decoder makes a value from a literal without looking at a catalog.  The literals of documents
are matched strictly, so that shapes can be told apart by them; the attributes of elements are
texts, and numbers and truth values are read from them.

* `Leaf.bool`, `Leaf.int`, `Leaf.float`, `Leaf.string` — the decoders of the primitive types.
* `Leaf.named` — the decoder of a type whose values have names.
-/

set_option autoImplicit false

namespace DeferredStyle

/-- A decoder of literals: one rule for documents, one for attributes. -/
structure Leaf where
  name : String
  decodeLiteral : Literal → Except String Value
  decodeAttribute : Literal → Except String Value

namespace Leaf

/-- The same rule for documents and attributes. -/
def uniform (name : String) (rule : Literal → Except String Value) : Leaf :=
  ⟨name, rule, rule⟩

/-- The message for a literal of another type. -/
def mismatch (expected : String) (found : Literal) : String :=
  s!"expected `{expected}`, found {found.kind} {found.text}"

/-- A truth value. -/
def boolLiteral : Literal → Except String Value
  | .bool b => .ok (.bool b)
  | other => .error (mismatch "Bool" other)

/-- A truth value, or a text for one; an attribute that is only present is true. -/
def boolAttribute : Literal → Except String Value
  | .string s =>
    match Text.trim s with
    | "" => .ok (.bool true)
    | "true" => .ok (.bool true)
    | "false" => .ok (.bool false)
    | _ => .error (mismatch "Bool" (.string s))
  | other => boolLiteral other

/-- An integer. -/
def intLiteral : Literal → Except String Value
  | .int n => .ok (.int n)
  | other => .error (mismatch "Int" other)

/-- An integer, or a text for one. -/
def intAttribute : Literal → Except String Value
  | .string s =>
    match Decimal.int64? (Text.trimChars s.toList) with
    | some n => .ok (.int n)
    | none => .error (mismatch "Int" (.string s))
  | other => intLiteral other

/-- A number. -/
def floatLiteral : Literal → Except String Value
  | .float x => .ok (.float x)
  | .int n => .ok (.float (Decimal.ofInt64 n))
  | other => .error (mismatch "Double" other)

/-- The finite number of a text. -/
def finiteFloat? (cs : List Char) : Option Float :=
  (Decimal.float? cs).filter Float.isFinite

/-- A number, or a text for a finite one. -/
def floatAttribute : Literal → Except String Value
  | .string s =>
    match finiteFloat? (Text.trimChars s.toList) with
    | some x => .ok (.float x)
    | none => .error (mismatch "Double" (.string s))
  | other => floatLiteral other

/-- A text. -/
def stringLiteral : Literal → Except String Value
  | .string s => .ok (.string s)
  | other => .error (mismatch "String" other)

/-- Truth values. -/
def bool : Leaf := ⟨"Bool", boolLiteral, boolAttribute⟩

/-- Integers. -/
def int : Leaf := ⟨"Int", intLiteral, intAttribute⟩

/-- Numbers. -/
def float : Leaf := ⟨"Double", floatLiteral, floatAttribute⟩

/-- Texts. -/
def string : Leaf := uniform "String" stringLiteral

/-- The value with the name that a literal holds. -/
def namedLiteral (typeName : String) (lookup : String → Option Value) :
    Literal → Except String Value
  | .string name =>
    match lookup (Text.trim name) with
    | some v => .ok v
    | none => .error s!"`{name}` is not a `{typeName}` case"
  | other => .error s!"expected a `{typeName}` case name, found {other.kind} {other.text}"

/-- The values of a type that has a name for each of them. -/
def named (typeName : String) (lookup : String → Option Value) : Leaf :=
  uniform typeName (namedLiteral typeName lookup)

end Leaf

end DeferredStyle
