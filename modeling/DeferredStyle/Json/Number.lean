import DeferredStyle.Json.Source

/-!
# JSON numbers

A number is read in two steps: the digits as they are written, and their value.

The value is computed from a 64-bit significand and a power of ten.  Digits enter the significand
for as long as it fits 64 bits.  A digit of the whole part that no longer fits raises the exponent
by one instead, a fraction digit that fits lowers it by one, and one that does not fit is dropped.
A number with neither fraction nor exponent whose digits all fit is an integer; any other is a
double, the significand multiplied or divided by the power of ten with one rounding per operation.

* `readNumber` — the written digits at the front of a text.
* `Written.value` — the number they stand for.
-/

set_option autoImplicit false

namespace DeferredStyle.Json

/-- A number as it is written: digit values, most significant first. -/
structure Written where
  negative : Bool
  whole : List Nat
  fraction : Option (List Nat)
  exponent : Option Int

/-- The value of an ASCII digit. -/
def digit? (b : UInt8) : Option Nat :=
  if 0x30 ≤ b ∧ b ≤ 0x39 then some (b.toNat - 0x30) else none

/-- The digits at the front of a text and the rest. -/
def spanDigits : List UInt8 → List Nat × List UInt8
  | [] => ([], [])
  | b :: rest =>
    match digit? b with
    | none => ([], b :: rest)
    | some digit =>
      let (digits, rest) := spanDigits rest
      (digit :: digits, rest)

/-- The fault of a place that needs a digit and has none. -/
def missingDigit (rest : List UInt8) : Fault :=
  if rest.isEmpty then .endInValue else .invalidNumber

/-- A fraction, if the text goes on with a point. -/
def readFraction : List UInt8 → Except Fault (Option (List Nat) × List UInt8)
  | 0x2e :: text =>
    match spanDigits text with
    | ([], rest) => .error (missingDigit rest)
    | (digits, rest) => .ok (some digits, rest)
  | text => .ok (none, text)

/-- The digits of an exponent after its optional sign. -/
def readExponentDigits (negative : Bool) (text : List UInt8) :
    Except Fault (Option Int × List UInt8) :=
  match spanDigits text with
  | ([], rest) => .error (missingDigit rest)
  | (digits, rest) =>
    let size := Decimal.ofDigits 0 digits
    .ok (some (if negative then -(size : Int) else size), rest)

/-- An exponent, if the text goes on with its mark. -/
def readExponent : List UInt8 → Except Fault (Option Int × List UInt8)
  | mark :: text =>
    if mark = 0x65 ∨ mark = 0x45 then
      match text with
      | 0x2b :: digits => readExponentDigits false digits
      | 0x2d :: digits => readExponentDigits true digits
      | digits => readExponentDigits false digits
    else .ok (none, mark :: text)
  | [] => .ok (none, [])

/-- The digits before the point.  A zero in front stands alone. -/
def readWhole (text : List UInt8) : Except Fault (List Nat × List UInt8) :=
  match spanDigits text with
  | ([], rest) => .error (missingDigit rest)
  | (0 :: _ :: _, _) => .error .invalidNumber
  | (digits, rest) => .ok (digits, rest)

/-- The number at the front of a text, after its sign. -/
def readUnsigned (negative : Bool) (text : List UInt8) :
    Except Fault (Written × List UInt8) := do
  let (whole, text) ← readWhole text
  let (fraction, text) ← readFraction text
  let (exponent, text) ← readExponent text
  return (⟨negative, whole, fraction, exponent⟩, text)

/-! ## Values -/

/-- Take digits into a significand while it stays below 2^64, and count the digits left over. -/
def absorb (significand : Nat) : List Nat → Nat × Nat × Nat
  | [] => (significand, 0, 0)
  | digit :: digits =>
    if 10 * significand + digit < UInt64.size then
      let (result, taken, left) := absorb (10 * significand + digit) digits
      (result, taken + 1, left)
    else (significand, 0, digits.length + 1)

/-- A power of ten as the nearest double. -/
def tenTo (n : Nat) : Float :=
  Float.ofScientific 1 false n

/-- Divide by `10^n`, at most 308 powers at a time. -/
def divideByTens (x : Float) (n : Nat) : Float :=
  if x == 0.0 then x
  else if n ≤ 308 then x / tenTo n
  else divideByTens (x / tenTo 308) (n - 308)
termination_by n

/-- The significand times the power of ten, or nothing beyond the largest double. -/
def scale? (significand : Nat) (exponent : Int) : Option Float :=
  let x := (UInt64.ofNat significand).toFloat
  if exponent < 0 then some (divideByTens x exponent.natAbs)
  else if exponent ≤ 308 then
    let y := x * tenTo exponent.toNat
    if y.isInf then none else some y
  else if x == 0.0 then some x
  else none

/-- A whole number within 64 bits; a negative one outside the signed range, and negative zero, are
doubles. -/
def integer (negative : Bool) (significand : Nat) : Number :=
  if !negative then .natural (UInt64.ofNat significand)
  else if 0 < significand ∧ significand ≤ 0x8000000000000000 then
    .negative (Int64.ofInt (-significand))
  else .float (-(UInt64.ofNat significand).toFloat)

/-- The number that written digits stand for. -/
def Written.value (w : Written) : Except Fault Number :=
  let (significand, _, left) := absorb 0 w.whole
  match left, w.fraction, w.exponent with
  | 0, none, none => .ok (integer w.negative significand)
  | _, _, _ =>
    let (significand, taken, _) := absorb significand (w.fraction.getD [])
    match scale? significand ((left : Int) - taken + w.exponent.getD 0) with
    | none => .error .numberOutOfRange
    | some x => .ok (.float (if w.negative then -x else x))

/-- The number at the front of a text. -/
def readNumber (text : List UInt8) : Except Fault (Number × List UInt8) := do
  let (written, rest) ←
    match text with
    | 0x2d :: digits => readUnsigned true digits
    | digits => readUnsigned false digits
  return (← written.value, rest)

end DeferredStyle.Json
