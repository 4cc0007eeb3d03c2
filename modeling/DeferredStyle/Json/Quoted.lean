import DeferredStyle.Json.Source

/-!
# JSON strings

A string is read from the bytes behind its opening quote.  Bytes other than escapes are taken as
they are and must form UTF-8 when the closing quote is reached; an escape contributes the UTF-8
bytes of its character.  Escapes of UTF-16 surrogates count only in pairs.

* `readString` — the string at the front of a text, after its opening quote.
* `escapeChar` — how a character is written inside quotes.
* `quote` — a string as it is written.
-/

set_option autoImplicit false

namespace DeferredStyle.Json

/-! ## Reading -/

/-- The value of a hexadecimal digit. -/
def hexDigit? (b : UInt8) : Option Nat :=
  if 0x30 ≤ b ∧ b ≤ 0x39 then some (b.toNat - 0x30)
  else if 0x41 ≤ b ∧ b ≤ 0x46 then some (b.toNat - 0x41 + 10)
  else if 0x61 ≤ b ∧ b ≤ 0x66 then some (b.toNat - 0x61 + 10)
  else none

/-- The number of four hexadecimal digits. -/
def hexUnit (a b c d : UInt8) : Except Fault Nat :=
  match hexDigit? a, hexDigit? b, hexDigit? c, hexDigit? d with
  | some a, some b, some c, some d => .ok (((a * 16 + b) * 16 + c) * 16 + d)
  | _, _, _, _ => .error .invalidEscape

/-- The byte that a one-letter escape stands for. -/
def shortEscape? (b : UInt8) : Option UInt8 :=
  if b = 0x22 ∨ b = 0x5c ∨ b = 0x2f then some b
  else if b = 0x62 then some 0x08
  else if b = 0x66 then some 0x0c
  else if b = 0x6e then some 0x0a
  else if b = 0x72 then some 0x0d
  else if b = 0x74 then some 0x09
  else none

/-- The code point of a surrogate pair. -/
def pairedCodePoint (high low : Nat) : Nat :=
  (high - 0xd800) * 0x400 + (low - 0xdc00) + 0x10000

/-- Put the UTF-8 bytes of a code point in front of reversed bytes. -/
def pushCodePoint (taken : List UInt8) (codePoint : Nat) : List UInt8 :=
  (String.utf8EncodeChar (Char.ofNat codePoint)).reverse ++ taken

/-- The fault of a high surrogate that no second escape follows. -/
def missingPair : List UInt8 → Fault
  | [] => .endInString
  | 0x5c :: [] => .endInString
  | 0x5c :: 0x75 :: _ => .endInString
  | _ => .unexpectedEscapeEnd

/-- The string that reversed bytes form. -/
def finishString (taken : List UInt8) : Except Fault String :=
  match String.fromUTF8? ⟨taken.reverse.toArray⟩ with
  | some s => .ok s
  | none => .error .invalidCodePoint

/-- The string up to its closing quote and what follows it; `taken` holds the bytes read so far in
reverse order. -/
def readStringFrom (taken : List UInt8) : List UInt8 → Except Fault (String × List UInt8)
  | [] => .error .endInString
  | 0x22 :: rest =>
    match finishString taken with
    | .ok s => .ok (s, rest)
    | .error f => .error f
  | 0x5c :: 0x75 :: a :: b :: c :: d :: rest =>
    match hexUnit a b c d with
    | .error f => .error f
    | .ok unit =>
      if 0xdc00 ≤ unit ∧ unit ≤ 0xdfff then .error .loneSurrogate
      else if unit < 0xd800 ∨ 0xdbff < unit then readStringFrom (pushCodePoint taken unit) rest
      else match rest with
        | 0x5c :: 0x75 :: a :: b :: c :: d :: rest =>
          match hexUnit a b c d with
          | .error f => .error f
          | .ok low =>
            if 0xdc00 ≤ low ∧ low ≤ 0xdfff then
              readStringFrom (pushCodePoint taken (pairedCodePoint unit low)) rest
            else .error .loneSurrogate
        | rest => .error (missingPair rest)
  | 0x5c :: 0x75 :: _ => .error .endInString
  | 0x5c :: b :: rest =>
    match shortEscape? b with
    | some byte => readStringFrom (byte :: taken) rest
    | none => .error .invalidEscape
  | 0x5c :: [] => .error .endInString
  | b :: rest =>
    if b < 0x20 then .error .controlCharacter else readStringFrom (b :: taken) rest

/-- The string at the front of a text, after its opening quote. -/
def readString (text : List UInt8) : Except Fault (String × List UInt8) :=
  readStringFrom [] text

/-! ## Writing -/

/-- A lower-case hexadecimal digit. -/
def hexChar (n : Nat) : Char :=
  if n < 10 then Char.ofNat (0x30 + n) else Char.ofNat (0x61 + n - 10)

/-- How a character is written inside quotes.  Quotes, backslashes and control characters are
escaped, everything else stands for itself. -/
def escapeChar (c : Char) : List Char :=
  if c = '"' then ['\\', '"']
  else if c = '\\' then ['\\', '\\']
  else if c = '\x08' then ['\\', 'b']
  else if c = '\x0c' then ['\\', 'f']
  else if c = '\n' then ['\\', 'n']
  else if c = '\r' then ['\\', 'r']
  else if c = '\t' then ['\\', 't']
  else if c.toNat < 0x20 then
    ['\\', 'u', '0', '0', hexChar (c.toNat / 16), hexChar (c.toNat % 16)]
  else [c]

/-- A string as it is written. -/
def quote (s : String) : String :=
  String.ofList ('"' :: s.toList.flatMap escapeChar ++ ['"'])

end DeferredStyle.Json
