import DeferredStyle.Decimal.Layout
import DeferredStyle.Json.Quoted

/-!
# Printing JSON

`compact` writes a value without any gaps, `pretty` with one item or member a line and two spaces of
indentation per level.  Members are written in the order they stand in.

* `numberText` — a number; infinities and NaN are written `null`.
-/

set_option autoImplicit false

namespace DeferredStyle.Json

/-- A number as it is written. -/
def numberText : Number → String
  | .natural n => toString n.toNat
  | .negative n => toString n.toInt
  | .float x => (Decimal.jsonText? x).getD "null"

/-- A text between two brackets, with the items separated by commas. -/
def bracketed (opening closing : String) (items : List String) : String :=
  opening ++ String.intercalate "," items ++ closing

mutual

/-- A value without gaps. -/
def compact : Json → String
  | .null => "null"
  | .bool b => if b then "true" else "false"
  | .number n => numberText n
  | .string s => quote s
  | .array items => bracketed "[" "]" (compactItems items)
  | .object members => bracketed "\x7b" "\x7d" (compactMembers members)

/-- The items of a list, each without gaps. -/
def compactItems : List Json → List String
  | [] => []
  | item :: items => item.compact :: compactItems items

/-- The members of an object, each without gaps. -/
def compactMembers : List (String × Json) → List String
  | [] => []
  | (key, value) :: members => (quote key ++ ":" ++ value.compact) :: compactMembers members

end

/-- The start of a line at a level of indentation. -/
def newLine (level : Nat) : String :=
  "\n" ++ String.ofList (List.replicate (2 * level) ' ')

/-- A text between two brackets, with each item on a line of its own one level further in. -/
def indented (opening closing : String) (level : Nat) (items : List String) : String :=
  if items.isEmpty then opening ++ closing
  else opening ++ String.intercalate "," (items.map (newLine (level + 1) ++ ·)) ++
    newLine level ++ closing

mutual

/-- A value at a level of indentation. -/
def prettyAt : Nat → Json → String
  | level, .array items => indented "[" "]" level (prettyItems (level + 1) items)
  | level, .object members =>
    indented "\x7b" "\x7d" level (prettyMembers (level + 1) members)
  | _, .null => "null"
  | _, .bool b => if b then "true" else "false"
  | _, .number n => numberText n
  | _, .string s => quote s

/-- The items of a list at a level of indentation. -/
def prettyItems : Nat → List Json → List String
  | _, [] => []
  | level, item :: items => prettyAt level item :: prettyItems level items

/-- The members of an object at a level of indentation. -/
def prettyMembers : Nat → List (String × Json) → List String
  | _, [] => []
  | level, (key, value) :: members =>
    (quote key ++ ": " ++ prettyAt level value) :: prettyMembers level members

end

/-- A value with one item or member a line. -/
def pretty (value : Json) : String :=
  prettyAt 0 value

end DeferredStyle.Json
