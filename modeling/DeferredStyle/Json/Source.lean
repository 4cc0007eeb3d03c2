import DeferredStyle.Json.Value

/-!
# JSON source

`Source` is a JSON text as it is read from left to right: members in the order of the text, repeated
keys kept, and the first violation of the grammar in the place where reading stops.  What a reader
makes of a text depends only on its source, so a reader that gives up on an earlier part never
meets a later fault.

* `Fault` — the violations, with their texts.
* `Source.toJson` — the value of a source without faults.
-/

set_option autoImplicit false

namespace DeferredStyle.Json

/-- A violation of the JSON grammar. -/
inductive Fault where
  | endInList
  | endInObject
  | endInString
  | endInValue
  | expectedColon
  | expectedListCommaOrEnd
  | expectedObjectCommaOrEnd
  | expectedWord
  | expectedValue
  | invalidEscape
  | invalidNumber
  | numberOutOfRange
  | invalidCodePoint
  | controlCharacter
  | keyNotString
  | loneSurrogate
  | trailingComma
  | trailingCharacters
  | unexpectedEscapeEnd
  | tooDeep
  deriving DecidableEq

/-- Whether the text only ended too early. -/
def Fault.isEnd : Fault → Bool
  | .endInList | .endInObject | .endInString | .endInValue => true
  | _ => false

/-- The text of a violation. -/
def Fault.message : Fault → String
  | .endInList => "EOF while parsing a list"
  | .endInObject => "EOF while parsing an object"
  | .endInString => "EOF while parsing a string"
  | .endInValue => "EOF while parsing a value"
  | .expectedColon => "expected `:`"
  | .expectedListCommaOrEnd => "expected `,` or `]`"
  | .expectedObjectCommaOrEnd => "expected `,` or `\x7d`"
  | .expectedWord => "expected ident"
  | .expectedValue => "expected value"
  | .invalidEscape => "invalid escape"
  | .invalidNumber => "invalid number"
  | .numberOutOfRange => "number out of range"
  | .invalidCodePoint => "invalid unicode code point"
  | .controlCharacter =>
    "control character (\\u0000-\\u001F) found while parsing a string"
  | .keyNotString => "key must be a string"
  | .loneSurrogate => "lone leading surrogate in hex escape"
  | .trailingComma => "trailing comma"
  | .trailingCharacters => "trailing characters"
  | .unexpectedEscapeEnd => "unexpected end of hex escape"
  | .tooDeep => "recursion limit exceeded"

/-- A text as far as it could be read.  `fault` stands where no value could be read; the fault that
closes a list or an object was met after its last item. -/
inductive Source where
  | fault (f : Fault)
  | null
  | bool (b : Bool)
  | number (n : Number)
  | string (s : String)
  | array (items : List Source) (close : Option Fault)
  | object (members : List (String × Source)) (close : Option Fault)

/-- What is left once everything has been read: nothing, or a fault. -/
def closing {α : Type} (close : Option Fault) (value : α) : Except Fault α :=
  match close with
  | none => .ok value
  | some fault => .error fault

mutual

/-- The value of a source, or its first fault. -/
def Source.toJson : Source → Except Fault Json
  | .fault f => .error f
  | .null => .ok .null
  | .bool b => .ok (.bool b)
  | .number n => .ok (.number n)
  | .string s => .ok (.string s)
  | .array items close =>
    match Source.itemsToJson items with
    | .error f => .error f
    | .ok values => closing close (.array values)
  | .object members close =>
    match Source.membersToJson members with
    | .error f => .error f
    | .ok values => closing close (Json.ofMembers values)

/-- The values of a list's items. -/
def Source.itemsToJson : List Source → Except Fault (List Json)
  | [] => .ok []
  | item :: items =>
    match item.toJson with
    | .error f => .error f
    | .ok value =>
      match Source.itemsToJson items with
      | .error f => .error f
      | .ok values => .ok (value :: values)

/-- The values of an object's members, in the order of the text. -/
def Source.membersToJson : List (String × Source) → Except Fault (List (String × Json))
  | [] => .ok []
  | (key, member) :: members =>
    match member.toJson with
    | .error f => .error f
    | .ok value =>
      match Source.membersToJson members with
      | .error f => .error f
      | .ok values => .ok ((key, value) :: values)

end

/-- A whole text: one value and what stands after it. -/
structure Document where
  root : Source
  rest : Option Fault

/-- The value of a text. -/
def Document.toJson (document : Document) : Except Fault Json :=
  match document.root.toJson with
  | .error f => .error f
  | .ok value => closing document.rest value

end DeferredStyle.Json
