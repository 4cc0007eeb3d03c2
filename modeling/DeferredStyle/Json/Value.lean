import DeferredStyle.Decimal.Floating
import DeferredStyle.Table

/-!
# JSON values

A number keeps the class it was written in: a whole number without a sign up to 64 bits, a negative
whole number down to the least signed 64-bit one, and everything else as a double.

* `Number.toInt64?` — the numbers that are signed 64-bit integers.
* `Number.toFloat` — the double of any number.
* `Json.ofMembers` — the object of a list of members, sorted by key, the last of a key winning.
-/

set_option autoImplicit false

namespace DeferredStyle

/-- A JSON number. -/
inductive Number where
  | natural (n : UInt64)
  | negative (n : Int64)
  | float (x : Float)

/-- The number as a signed 64-bit integer, if it is one. -/
def Number.toInt64? : Number → Option Int64
  | .natural n => if n.toNat < 0x8000000000000000 then some n.toInt64 else none
  | .negative n => some n
  | .float _ => none

/-- The double of any number. -/
def Number.toFloat : Number → Float
  | .natural n => n.toFloat
  | .negative n => Decimal.ofInt64 n
  | .float x => x

/-- A JSON value.  The members of an object that was read stand in increasing key order, one per
key. -/
inductive Json where
  | null
  | bool (b : Bool)
  | number (n : Number)
  | string (s : String)
  | array (items : List Json)
  | object (members : List (String × Json))

namespace Json

instance : Inhabited Json := ⟨null⟩

/-- The object with the given members, of which the last of each key counts. -/
def ofMembers (members : List (String × Json)) : Json :=
  object (Table.ofList members).entries

/-- The name of a value's class in messages. -/
def kind : Json → String
  | null => "null"
  | bool _ => "bool"
  | number _ => "number"
  | string _ => "string"
  | array _ => "array"
  | object _ => "object"

/-- The member `key` of an object. -/
def member? (key : String) : Json → Option Json
  | object members => Table.lookup? key members
  | _ => none

end Json

end DeferredStyle
