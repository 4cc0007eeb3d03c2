import DeferredStyle.Decimal.Layout
import DeferredStyle.Json.Source
import DeferredStyle.Text.Quoted

/-!
# Values of the wrong type

A `Mismatch` names what was found in a document and what was expected there.

* `Json.describe`, `Source.describe` — what a value is, as mismatches name it.
-/

set_option autoImplicit false

namespace DeferredStyle.Json

/-- A value where another one was expected. -/
inductive Mismatch where
  /-- A value of another type. -/
  | type (found expected : String)
  /-- A value of the right type that is out of range. -/
  | value (found expected : String)

/-- The text of a mismatch. -/
def Mismatch.message : Mismatch → String
  | type found expected => s!"invalid type: {found}, expected {expected}"
  | value found expected => s!"invalid value: {found}, expected {expected}"

/-- What a truth value is. -/
def describeBool (b : Bool) : String :=
  if b then "boolean `true`" else "boolean `false`"

/-- What a number is. -/
def describeNumber : Number → String
  | .natural n => s!"integer `{n.toNat}`"
  | .negative n => s!"integer `{n.toInt}`"
  | .float x =>
    let digits := (Decimal.jsonText? x).getD "null"
    s!"floating point `{digits}`"

/-- What a string is. -/
def describeString (s : String) : String :=
  "string " ++ Text.quoted s

/-- What a value is. -/
def describe : Json → String
  | .null => "null"
  | .bool b => describeBool b
  | .number n => describeNumber n
  | .string s => describeString s
  | .array _ => "sequence"
  | .object _ => "map"

/-- What a source is; a fault is no value. -/
def Source.describe : Source → Except Fault String
  | .fault f => .error f
  | .null => .ok "null"
  | .bool b => .ok (describeBool b)
  | .number n => .ok (describeNumber n)
  | .string s => .ok (describeString s)
  | .array _ _ => .ok "sequence"
  | .object _ _ => .ok "map"

end DeferredStyle.Json
