import DeferredStyle.Decimal.Shortest

/-!
# Floating-point numbers as text

Two layouts of the shortest digits of a double.

* `plainText` — the form of messages: always positional, no point in a whole number.
* `jsonText` — the form of documents: positional with a fraction from 1e-5 up to below 1e16, with an
  exponent outside that range.  A document has no infinities and no NaN, so these have no text.
-/

set_option autoImplicit false

namespace DeferredStyle.Decimal

/-- The digits of a decimal and the place of its point: `place` digits stand before the point. -/
def Scientific.pointed (d : Scientific) : List Char × Int :=
  let digits := digitsOf d.digits
  (digits, d.exponent + digits.length)

/-- The digits before and behind the point, padded with zeros.  The whole part is never empty; the
fraction is empty in a whole number. -/
def positionalParts (digits : List Char) (place : Int) : List Char × List Char :=
  if place ≤ 0 then (['0'], List.replicate (-place).toNat '0' ++ digits)
  else
    let n := place.toNat
    (digits.take n ++ List.replicate (n - digits.length) '0', digits.drop n)

/-- The sign of a negative number. -/
def signText (bits : UInt64) : List Char :=
  if isNegative bits then ['-'] else []

/-! ## Messages -/

/-- The shortest digits in positional form. -/
def plainChars (bits : UInt64) : List Char :=
  if exponentField bits = 0 ∧ significandField bits = 0 then ['0']
  else
    let (digits, place) := (shortest .up bits).pointed
    match positionalParts digits place with
    | (whole, []) => whole
    | (whole, fraction) => whole ++ '.' :: fraction

/-- A double as messages write it. -/
def plainText (x : Float) : String :=
  let bits := x.toBits
  if x.isNaN then "NaN"
  else if !isFinite bits then String.ofList (signText bits ++ ['i', 'n', 'f'])
  else String.ofList (signText bits ++ plainChars bits)

/-! ## Documents -/

/-- One digit, a fraction if there are more digits, and a signed exponent. -/
def exponentChars (digits : List Char) (place : Int) : List Char :=
  let mantissa :=
    match digits with
    | first :: second :: rest => first :: '.' :: second :: rest
    | short => short
  let exponent := place - 1
  mantissa ++ 'e' :: (if exponent < 0 then '-' else '+') :: digitsOf exponent.natAbs

/-- The shortest digits, positional with a fraction where the point lies among the first sixteen
places or up to four zeros before the digits. -/
def jsonChars (bits : UInt64) : List Char :=
  if exponentField bits = 0 ∧ significandField bits = 0 then ['0', '.', '0']
  else
    let (digits, place) := (shortest .even bits).pointed
    if -5 < place ∧ place ≤ 16 then
      match positionalParts digits place with
      | (whole, []) => whole ++ ['.', '0']
      | (whole, fraction) => whole ++ '.' :: fraction
    else exponentChars digits place

/-- A finite double as documents write it. -/
def jsonText? (x : Float) : Option String :=
  let bits := x.toBits
  if isFinite bits then some (String.ofList (signText bits ++ jsonChars bits)) else none

end DeferredStyle.Decimal
