import DeferredStyle.Literal
import DeferredStyle.Style.Modifier

/-!
# Resolved values

Everything a shape can build.

* `Value.kind` — the name of a value's type in messages.
* `Value.toJson`, `Value.floats` — how a value is written, and the numbers in it.
* `FromValue` — taking a value as a particular type.
-/

set_option autoImplicit false

namespace DeferredStyle

/-- A resolved value. -/
inductive Value where
  | nil
  | bool (b : Bool)
  | int (n : Int64)
  | float (x : Float)
  | string (s : String)
  | list (items : List Value)
  | color (color : Color)
  | paint (paint : Paint)
  | font (font : Font)
  | fontWeight (weight : FontWeight)
  | fontDesign (design : FontDesign)
  | textStyle (style : TextStyle)
  | alignment (alignment : Alignment)
  | edgeSet (edges : EdgeSet)
  | modifier (modifier : Modifier)

namespace Value

instance : Inhabited Value := ⟨nil⟩

/-- The name of a value's type in messages. -/
def kind : Value → String
  | nil => "nil"
  | bool _ => "Bool"
  | int _ => "Int"
  | float _ => "Double"
  | string _ => "String"
  | list _ => "Array"
  | color _ => "Color"
  | paint _ => "Paint"
  | font _ => "Font"
  | fontWeight _ => "FontWeight"
  | fontDesign _ => "FontDesign"
  | textStyle _ => "TextStyle"
  | alignment _ => "Alignment"
  | edgeSet _ => "EdgeSet"
  | modifier _ => "Modifier"

/-- Whether a value is absent. -/
def isNil : Value → Bool
  | nil => true
  | _ => false

mutual

/-- Whether two values are the same up to the equality of numbers: zeros of either sign are the
same, and NaN differs from itself. -/
def beq : Value → Value → Bool
  | nil, nil => true
  | bool a, bool b => a == b
  | int a, int b => a == b
  | float a, float b => a == b
  | string a, string b => a == b
  | list a, list b => beqItems a b
  | color a, color b => a == b
  | paint a, paint b => a == b
  | font a, font b => a == b
  | fontWeight a, fontWeight b => a == b
  | fontDesign a, fontDesign b => a == b
  | textStyle a, textStyle b => a == b
  | alignment a, alignment b => a == b
  | edgeSet a, edgeSet b => a == b
  | modifier a, modifier b => a == b
  | _, _ => false

/-- Whether two lists of values are the same, item by item. -/
def beqItems : List Value → List Value → Bool
  | [], [] => true
  | a :: as, b :: bs => beq a b && beqItems as bs
  | _, _ => false

end

instance : BEq Value := ⟨beq⟩

mutual

/-- The JSON value of a value. -/
def toJson : Value → Json
  | nil => .null
  | bool b => .bool b
  | int n => .number (Literal.numberOfInt n)
  | float x => .number (.float x)
  | string s => .string s
  | list items => .array (itemsToJson items)
  | color c => c.toJson
  | paint p => p.toJson
  | font f => f.toJson
  | fontWeight weight => .string weight.name
  | fontDesign design => .string design.name
  | textStyle style => .string style.name
  | alignment a => .string a.name
  | edgeSet edges => edges.toJson
  | modifier m => m.toJson

/-- The JSON values of the items of a list. -/
def itemsToJson : List Value → List Json
  | [] => []
  | item :: items => item.toJson :: itemsToJson items

end

mutual

/-- The numbers in a value, whole ones apart. -/
def floats : Value → List Float
  | float x => [x]
  | list items => itemFloats items
  | color c => c.floats
  | paint p => p.floats
  | font f => f.floats
  | modifier m => m.floats
  | _ => []

/-- The numbers in the items of a list. -/
def itemFloats : List Value → List Float
  | [] => []
  | item :: items => item.floats ++ itemFloats items

end

end Value

/-! ## Taking a value as a type -/

/-- A type that some values can be taken as. -/
class FromValue (α : Type) where
  /-- The name of the type in messages. -/
  kind : String
  /-- The value as an element of the type, if it is one. -/
  fromValue? : Value → Option α

namespace FromValue

instance : FromValue Bool := ⟨"Bool", fun | .bool b => some b | _ => none⟩

instance : FromValue Int64 := ⟨"Int", fun | .int n => some n | _ => none⟩

/-- A whole number is taken as the nearest double. -/
instance : FromValue Float :=
  ⟨"Double", fun | .float x => some x | .int n => some (Decimal.ofInt64 n) | _ => none⟩

instance : FromValue String := ⟨"String", fun | .string s => some s | _ => none⟩

instance : FromValue Color := ⟨"Color", fun | .color c => some c | _ => none⟩

instance : FromValue Paint := ⟨"Paint", fun | .paint p => some p | _ => none⟩

instance : FromValue Font := ⟨"Font", fun | .font f => some f | _ => none⟩

instance : FromValue FontWeight := ⟨"FontWeight", fun | .fontWeight w => some w | _ => none⟩

instance : FromValue FontDesign := ⟨"FontDesign", fun | .fontDesign d => some d | _ => none⟩

instance : FromValue TextStyle := ⟨"TextStyle", fun | .textStyle s => some s | _ => none⟩

instance : FromValue Alignment := ⟨"Alignment", fun | .alignment a => some a | _ => none⟩

instance : FromValue EdgeSet := ⟨"EdgeSet", fun | .edgeSet e => some e | _ => none⟩

instance : FromValue Modifier := ⟨"Modifier", fun | .modifier m => some m | _ => none⟩

/-- Every value is itself. -/
instance : FromValue Value := ⟨"Any", some⟩

/-- Every item as an element of a type, if all are. -/
def itemsFromValues? {α : Type} [FromValue α] : List Value → Option (List α)
  | [] => some []
  | item :: items =>
    match (fromValue? item : Option α), itemsFromValues? items with
    | some a, some as => some (a :: as)
    | _, _ => none

/-- A list of values is taken item by item. -/
instance {α : Type} [FromValue α] : FromValue (List α) :=
  ⟨"Array", fun | .list items => itemsFromValues? items | _ => none⟩

end FromValue

end DeferredStyle
