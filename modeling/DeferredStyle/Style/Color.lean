import DeferredStyle.Json.Value

/-!
# Colors

A color has four channels between zero and one.

* `Color.ofHex?` — three, six or eight hexadecimal digits, with or without a `#` in front.
* `Color.hex` — the eight digits of a color, each channel rounded to the nearest byte.
* `Color.named?` — the colors of the palette by name.
-/

set_option autoImplicit false

namespace DeferredStyle

/-- A color in red, green, blue and opacity. -/
structure Color where
  red : Float
  green : Float
  blue : Float
  opacity : Float
  deriving BEq

namespace Color

/-- An opaque color. -/
def rgb (red green blue : Float) : Color := ⟨red, green, blue, 1.0⟩

/-! ## Named colors -/

namespace Palette

def red : Color := rgb 1.0 0.0 0.0
def orange : Color := rgb 1.0 0.5 0.0
def yellow : Color := rgb 1.0 1.0 0.0
def green : Color := rgb 0.0 1.0 0.0
def blue : Color := rgb 0.0 0.0 1.0
def purple : Color := rgb 0.5 0.0 0.5
def pink : Color := rgb 1.0 0.75 0.8
def white : Color := rgb 1.0 1.0 1.0
def gray : Color := rgb 0.5 0.5 0.5
def black : Color := rgb 0.0 0.0 0.0

/-- The color that lets everything through. -/
def clear : Color := ⟨0.0, 0.0, 0.0, 0.0⟩

end Palette

/-- The color with the given name. -/
def named? (name : String) : Option Color :=
  match name with
  | "red" => some Palette.red
  | "orange" => some Palette.orange
  | "yellow" => some Palette.yellow
  | "green" => some Palette.green
  | "blue" => some Palette.blue
  | "purple" => some Palette.purple
  | "pink" => some Palette.pink
  | "white" => some Palette.white
  | "gray" => some Palette.gray
  | "black" => some Palette.black
  | "clear" => some Palette.clear
  | _ => none

/-! ## Hexadecimal digits -/

/-- The value of a hexadecimal digit. -/
def hexDigit? (c : Char) : Option Nat :=
  if '0' ≤ c ∧ c ≤ '9' then some (c.toNat - '0'.toNat)
  else if 'a' ≤ c ∧ c ≤ 'f' then some (c.toNat - 'a'.toNat + 10)
  else if 'A' ≤ c ∧ c ≤ 'F' then some (c.toNat - 'A'.toNat + 10)
  else none

/-- The values of hexadecimal digits, if there are only such. -/
def hexDigits? : List Char → Option (List Nat)
  | [] => some []
  | c :: cs =>
    match hexDigit? c, hexDigits? cs with
    | some digit, some digits => some (digit :: digits)
    | _, _ => none

/-- The channel of a byte. -/
def channel (byte : Nat) : Float :=
  (UInt64.ofNat byte).toFloat / 255.0

/-- The channel of two hexadecimal digits. -/
def channelOf (high low : Nat) : Float :=
  channel (16 * high + low)

/-- The color of three, six or eight digits.  A short form doubles every digit, and a form without
opacity is opaque. -/
def ofDigits? : List Nat → Option Color
  | [r, g, b] => some (rgb (channelOf r r) (channelOf g g) (channelOf b b))
  | [r, r', g, g', b, b'] => some (rgb (channelOf r r') (channelOf g g') (channelOf b b'))
  | [r, r', g, g', b, b', o, o'] =>
    some ⟨channelOf r r', channelOf g g', channelOf b b', channelOf o o'⟩
  | _ => none

/-- The digits of a hexadecimal color, without the one `#` that may stand in front. -/
def digitsPart : List Char → List Char
  | '#' :: cs => cs
  | cs => cs

/-- The color that a hexadecimal text denotes. -/
def ofHex? (text : String) : Option Color :=
  (hexDigits? (digitsPart text.toList)).bind ofDigits?

/-! ## Channels -/

/-- The nearest number between zero and one; NaN stays as it is. -/
def clampUnit (x : Float) : Float :=
  if x < 0.0 then 0.0 else if 1.0 < x then 1.0 else x

/-- The byte nearest to a channel, halves going up. -/
def channelByte (x : Float) : UInt8 :=
  let scaled := clampUnit x * 255.0
  let whole := scaled.toUInt8
  if 0.5 ≤ scaled - (UInt64.ofNat whole.toNat).toFloat then whole + 1 else whole

/-- An upper-case hexadecimal digit. -/
def hexChar (n : Nat) : Char :=
  if n < 10 then Char.ofNat ('0'.toNat + n) else Char.ofNat ('A'.toNat + (n - 10))

/-- The two digits of a byte. -/
def byteChars (byte : UInt8) : List Char :=
  [hexChar (byte.toNat / 16), hexChar (byte.toNat % 16)]

/-- A color as `#` and eight digits. -/
def hex (color : Color) : String :=
  String.ofList ('#' ::
    (byteChars (channelByte color.red) ++ byteChars (channelByte color.green) ++
      byteChars (channelByte color.blue) ++ byteChars (channelByte color.opacity)))

/-- The color with its opacity multiplied by `factor`, kept between zero and one. -/
def withOpacity (color : Color) (factor : Float) : Color :=
  { color with opacity := clampUnit (color.opacity * factor) }

/-- The JSON value of a color. -/
def toJson (color : Color) : Json := .string color.hex

/-- The channels of a color. -/
def floats (color : Color) : List Float :=
  [color.red, color.green, color.blue, color.opacity]

end Color

end DeferredStyle
