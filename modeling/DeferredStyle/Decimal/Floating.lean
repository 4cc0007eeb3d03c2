import DeferredStyle.Decimal.Digits

/-!
# Reading floating-point numbers

`float?` reads a complete text: an optional sign, then digits with an optional fraction and an
optional exponent, or one of the words `inf`, `infinity` and `nan` in any letter case.  The result
is the double nearest to the decimal value, ties to the even neighbour.

* `ofDecimal` — the double nearest to `m · 10^e`.
* `Mantissa.read` — the digits before the exponent.
* `float?` — the whole grammar.
-/

set_option autoImplicit false

namespace DeferredStyle.Decimal

/-- The double nearest to `m · 10^e`.  Beyond 10^310 every value rounds to infinity, and below
10^(-330) every value rounds to zero. -/
def ofDecimal (m : Nat) (e : Int) : Float :=
  let magnitude := (decimalLength m : Int) + e
  if m = 0 ∨ magnitude < -330 then 0.0
  else if magnitude > 310 then 1.0 / 0.0
  else Float.ofScientific m (e < 0) e.natAbs

/-- A signed 64-bit whole number as the nearest double. -/
def ofInt64 (n : Int64) : Float :=
  if n < 0 then -(0 - n).toUInt64.toFloat else n.toUInt64.toFloat

/-- The digits of a number before its exponent. -/
structure Mantissa where
  whole : List Char
  fraction : List Char

/-- The digits at the front of a text, an optional point with the digits behind it, and the rest.
One digit on either side of the point is enough. -/
def Mantissa.read (cs : List Char) : Option (Mantissa × List Char) :=
  let whole := cs.takeWhile Char.isDigit
  match cs.dropWhile Char.isDigit with
  | '.' :: rest =>
    let fraction := rest.takeWhile Char.isDigit
    if whole.isEmpty && fraction.isEmpty then none
    else some (⟨whole, fraction⟩, rest.dropWhile Char.isDigit)
  | rest => if whole.isEmpty then none else some (⟨whole, []⟩, rest)

/-- The value of a mantissa with an exponent. -/
def Mantissa.toFloat (mantissa : Mantissa) (exponent : Int) : Option Float := do
  let m ← natOfDigits? (mantissa.whole ++ mantissa.fraction)
  return ofDecimal m (exponent - mantissa.fraction.length)

/-- A number without a sign. -/
def unsignedFloat? (cs : List Char) : Option Float :=
  match String.ofList (cs.map Char.toLower) with
  | "inf" => some (1.0 / 0.0)
  | "infinity" => some (1.0 / 0.0)
  | "nan" => some (0.0 / 0.0)
  | _ =>
    match Mantissa.read cs with
    | none => none
    | some (mantissa, []) => mantissa.toFloat 0
    | some (mantissa, mark :: exponent) =>
      if mark = 'e' ∨ mark = 'E' then
        (signed? exponent).bind mantissa.toFloat
      else none

/-- The double that a complete text denotes. -/
def float? : List Char → Option Float
  | '+' :: cs => unsignedFloat? cs
  | '-' :: cs => (unsignedFloat? cs).map Float.neg
  | cs => unsignedFloat? cs

end DeferredStyle.Decimal
