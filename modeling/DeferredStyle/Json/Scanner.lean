import DeferredStyle.Json.Number
import DeferredStyle.Json.Quoted

/-!
# Scanning JSON text

`scan` turns the bytes of a text into its source.  A scanning function returns what it read and the
bytes behind it; after a fault there are no such bytes, and every enclosing list and object ends
where it is.

At most 127 lists and objects may be open at once.  The other bound, `fuel`, is only there for
termination: three calls in a row pass at least one byte, so three times the number of bytes are
enough.

* `scanValue`, `scanItems`, `scanMembers` — the grammar.
* `scan` — a whole text.
* `Json.parse` — the value of a whole text.
-/

set_option autoImplicit false

namespace DeferredStyle.Json

/-- Spaces, tabs and line ends may stand between any two tokens. -/
def isGap (b : UInt8) : Bool :=
  b == 0x20 || b == 0x0a || b == 0x0d || b == 0x09

/-- The text from its first byte that is not a gap. -/
def skipGap (text : List UInt8) : List UInt8 :=
  text.dropWhile isGap

/-- The rest of a text behind the word `word`, or the fault in it. -/
def readWord : List UInt8 → List UInt8 → Except Fault (List UInt8)
  | [], text => .ok text
  | _ :: _, [] => .error .endInValue
  | w :: word, b :: text => if b = w then readWord word text else .error .expectedWord

/-- What a scanning function read, and the text behind it unless there was a fault. -/
structure Scanned (α : Type) where
  value : α
  rest : Option (List UInt8)

/-- A value read by a function that may fail. -/
def Scanned.ofExcept {α : Type} (make : α → Source) :
    Except Fault (α × List UInt8) → Scanned Source
  | .ok (value, rest) => ⟨make value, some rest⟩
  | .error f => ⟨.fault f, none⟩

/-- A value that cannot start here. -/
def Scanned.fault (f : Fault) : Scanned Source :=
  ⟨.fault f, none⟩

/-- The items or members of a container and the fault that closed it. -/
structure Contents (α : Type) where
  parts : List α
  close : Option Fault

/-- A container that ends here. -/
def endContents {α : Type} (close : Option Fault) (rest : Option (List UInt8)) :
    Scanned (Contents α) :=
  ⟨⟨[], close⟩, rest⟩

/-- A container with one more part in front. -/
def Scanned.cons {α : Type} (part : α) (tail : Scanned (Contents α)) : Scanned (Contents α) :=
  ⟨⟨part :: tail.value.parts, tail.value.close⟩, tail.rest⟩

/-- The key at the front of a text and what follows its colon; a fault behind the key is left to
the value. -/
def readKey (text : List UInt8) : Except Fault (String × Except Fault (List UInt8)) := do
  let (key, rest) ← readString text
  match skipGap rest with
  | 0x3a :: rest => return (key, .ok rest)
  | [] => return (key, .error .endInObject)
  | _ => return (key, .error .expectedColon)

mutual

/-- The value at the front of a text.  `depth` more containers may be opened. -/
def scanValue : Nat → Nat → List UInt8 → Scanned Source
  | 0, _, _ => Scanned.fault .endInValue
  | fuel + 1, depth, text =>
    match skipGap text with
    | [] => Scanned.fault .endInValue
    | b :: rest =>
      if b = 0x6e then
        Scanned.ofExcept (fun _ => .null) ((readWord [0x75, 0x6c, 0x6c] rest).map (((), ·)))
      else if b = 0x74 then
        Scanned.ofExcept .bool ((readWord [0x72, 0x75, 0x65] rest).map ((true, ·)))
      else if b = 0x66 then
        Scanned.ofExcept .bool ((readWord [0x61, 0x6c, 0x73, 0x65] rest).map ((false, ·)))
      else if b = 0x2d ∨ (0x30 ≤ b ∧ b ≤ 0x39) then
        Scanned.ofExcept .number (readNumber (b :: rest))
      else if b = 0x22 then
        Scanned.ofExcept .string (readString rest)
      else if b = 0x5b then
        if depth = 0 then Scanned.fault .tooDeep
        else
          let items := scanItems fuel (depth - 1) true rest
          ⟨.array items.value.parts items.value.close, items.rest⟩
      else if b = 0x7b then
        if depth = 0 then Scanned.fault .tooDeep
        else
          let members := scanMembers fuel (depth - 1) true rest
          ⟨.object members.value.parts members.value.close, members.rest⟩
      else Scanned.fault .expectedValue

/-- The items of a list up to its end; `first` tells whether none has been read yet. -/
def scanItems : Nat → Nat → Bool → List UInt8 → Scanned (Contents Source)
  | 0, _, _, _ => endContents (some .endInList) none
  | fuel + 1, depth, first, text =>
    match skipGap text, first with
    | [], _ => endContents (some .endInList) none
    | 0x5d :: rest, _ => endContents none (some rest)
    | text, true => scanItem fuel depth text
    | 0x2c :: rest, false =>
      match skipGap rest with
      | [] => endContents (some .endInValue) none
      | 0x5d :: _ => endContents (some .trailingComma) none
      | text => scanItem fuel depth text
    | _, false => endContents (some .expectedListCommaOrEnd) none

/-- One item and the items behind it. -/
def scanItem : Nat → Nat → List UInt8 → Scanned (Contents Source)
  | 0, _, _ => endContents (some .endInList) none
  | fuel + 1, depth, text =>
    let item := scanValue fuel depth text
    match item.rest with
    | none => ⟨⟨[item.value], none⟩, none⟩
    | some rest => Scanned.cons item.value (scanItems fuel depth false rest)

/-- The members of an object up to its end; `first` tells whether none has been read yet. -/
def scanMembers : Nat → Nat → Bool → List UInt8 → Scanned (Contents (String × Source))
  | 0, _, _, _ => endContents (some .endInObject) none
  | fuel + 1, depth, first, text =>
    match skipGap text, first with
    | [], _ => endContents (some .endInObject) none
    | 0x7d :: rest, _ => endContents none (some rest)
    | 0x22 :: rest, true => scanMember fuel depth rest
    | _, true => endContents (some .keyNotString) none
    | 0x2c :: rest, false =>
      match skipGap rest with
      | [] => endContents (some .endInValue) none
      | 0x22 :: rest => scanMember fuel depth rest
      | 0x7d :: _ => endContents (some .trailingComma) none
      | _ => endContents (some .keyNotString) none
    | _, false => endContents (some .expectedObjectCommaOrEnd) none

/-- One member, whose opening quote has been passed, and the members behind it. -/
def scanMember : Nat → Nat → List UInt8 → Scanned (Contents (String × Source))
  | 0, _, _ => endContents (some .endInObject) none
  | fuel + 1, depth, text =>
    match readKey text with
    | .error f => endContents (some f) none
    | .ok (key, .error f) => ⟨⟨[(key, .fault f)], none⟩, none⟩
    | .ok (key, .ok rest) =>
      let value := scanValue fuel depth rest
      match value.rest with
      | none => ⟨⟨[(key, value.value)], none⟩, none⟩
      | some rest => Scanned.cons (key, value.value) (scanMembers fuel depth false rest)

end

/-- How many lists and objects may be open at once. -/
def maxDepth : Nat := 127

/-- A whole text: one value with gaps around it. -/
def scan (text : List UInt8) : Document :=
  let root := scanValue (3 * text.length + 3) maxDepth text
  match root.rest with
  | none => ⟨root.value, none⟩
  | some rest =>
    if (skipGap rest).isEmpty then ⟨root.value, none⟩
    else ⟨root.value, some .trailingCharacters⟩

/-- The value of a whole text. -/
def parse (text : List UInt8) : Except Fault Json :=
  (scan text).toJson

end DeferredStyle.Json
