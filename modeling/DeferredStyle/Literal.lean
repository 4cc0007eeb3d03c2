import DeferredStyle.Decimal.Layout
import DeferredStyle.Json.Value

/-!
# Literals

The primitive values that documents, element attributes and environments hold.

* `Literal.ofNumber` — a JSON number is an integer exactly when it fits 64 bits with a sign, and a
  double otherwise.
* `Literal.ofJson?` — the first class of literals that takes a JSON value; none takes a list or an
  object.
* `Literal.text` — the form of messages.
-/

set_option autoImplicit false

namespace DeferredStyle

/-- A primitive value. -/
inductive Literal where
  | nil
  | bool (b : Bool)
  | int (n : Int64)
  | float (x : Float)
  | string (s : String)

namespace Literal

/-- The name of a literal's class in messages. -/
def kind : Literal → String
  | nil => "nil"
  | bool _ => "bool"
  | int _ => "int"
  | float _ => "float"
  | string _ => "string"

/-- The text of a string literal. -/
def string? : Literal → Option String
  | string s => some s
  | _ => none

/-- A literal as messages write it; the text of a string stands between quotes as it is. -/
def text : Literal → String
  | nil => "nil"
  | bool b => if b then "true" else "false"
  | int n => toString n.toInt
  | float x => Decimal.plainText x
  | string s => "\"" ++ s ++ "\""

/-- The literal of a JSON number. -/
def ofNumber (n : Number) : Literal :=
  match n.toInt64? with
  | some i => int i
  | none => float n.toFloat

/-- Null as nil. -/
def ofNull? : Json → Option Literal
  | .null => some nil
  | _ => none

/-- A truth value. -/
def ofBool? : Json → Option Literal
  | .bool b => some (bool b)
  | _ => none

/-- A number that fits 64 bits with a sign. -/
def ofInteger? : Json → Option Literal
  | .number n => n.toInt64?.map int
  | _ => none

/-- Any number as a double. -/
def ofFloat? : Json → Option Literal
  | .number n => some (float n.toFloat)
  | _ => none

/-- A text. -/
def ofString? : Json → Option Literal
  | .string s => some (string s)
  | _ => none

/-- The literal of a JSON value.  The classes of literals are tried one after the other, so that a
number is a double only if it is no integer; no class takes a list or an object. -/
def ofJson? (j : Json) : Option Literal :=
  [ofNull?, ofBool?, ofInteger?, ofFloat?, ofString?].findSome? fun read => read j

/-- The JSON number of a signed 64-bit integer. -/
def numberOfInt (n : Int64) : Number :=
  if n < 0 then .negative n else .natural n.toUInt64

/-- The JSON value of a literal. -/
def toJson : Literal → Json
  | nil => .null
  | bool b => .bool b
  | int n => .number (numberOfInt n)
  | float x => .number (.float x)
  | string s => .string s

end Literal

end DeferredStyle
