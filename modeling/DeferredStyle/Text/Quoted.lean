import DeferredStyle.Text.Printable

/-!
# Quoted text in messages

`quoted` writes a text between quotes.  Quotes, backslashes and the usual control characters become
short escapes, and any other character without a visible form of its own becomes its code point in
hexadecimal.
-/

set_option autoImplicit false

namespace DeferredStyle.Text

/-- How a character is written between quotes. -/
def quotedChar (c : Char) : List Char :=
  if c = '\x00' then ['\\', '0']
  else if c = '\t' then ['\\', 't']
  else if c = '\n' then ['\\', 'n']
  else if c = '\r' then ['\\', 'r']
  else if c = '"' then ['\\', '"']
  else if c = '\\' then ['\\', '\\']
  else if isPrintable c then [c]
  else ['\\', 'u', '\x7b'] ++ Nat.toDigits 16 c.toNat ++ ['\x7d']

/-- A text between quotes. -/
def quoted (text : String) : String :=
  String.ofList ('"' :: text.toList.flatMap quotedChar ++ ['"'])

end DeferredStyle.Text
