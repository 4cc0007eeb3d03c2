import DeferredStyle.Decimal.Digits

/-!
# The shortest decimal that reads back

A finite double stands for every real number that rounds to it: an interval around its value whose
ends belong to it when its significand is even.  `shortest` gives the decimal with the fewest
digits in that interval, and of two with equally few the one nearer to the value.

All comparisons are exact.  A double is `m · 2^q`, and the interval is measured in quarters of
`2^q`, so that its ends are whole numbers of quarters.

* `Magnitude.ofBits` — the parts of a finite double.
* `Magnitude.nearOn?` — the decimal of a given number of places that reads back, if there is one.
* `shortest` — the first hit as the number of digits grows from one to seventeen.
-/

set_option autoImplicit false

namespace DeferredStyle.Decimal

/-- A finite double without its sign: `significand · 2^exponent`.  At a power of two the next lower
double is only half as far away as the next higher one. -/
structure Magnitude where
  significand : Nat
  exponent : Int
  nearBelow : Bool

/-- The eleven bits below the sign; the highest value of the field is left to infinities and
NaN. -/
def exponentField (bits : UInt64) : Nat :=
  (bits.toNat / 0x10000000000000) % 0x800

/-- The lowest 52 bits. -/
def significandField (bits : UInt64) : Nat :=
  bits.toNat % 0x10000000000000

/-- Whether the sign bit is set. -/
def isNegative (bits : UInt64) : Bool :=
  0x8000000000000000 ≤ bits.toNat

/-- Whether the bits denote a number, and not an infinity or NaN. -/
def isFinite (bits : UInt64) : Bool :=
  exponentField bits != 2047

/-- The parts of the finite double with the given bits. -/
def Magnitude.ofBits (bits : UInt64) : Magnitude :=
  let e := exponentField bits
  let f := significandField bits
  if e = 0 then ⟨f, -1074, false⟩
  else ⟨0x10000000000000 + f, (e : Int) - 1075, f == 0 && 1 < e⟩

/-- What to do when two decimals are equally short and equally near. -/
inductive Tie where
  | even
  | up
  deriving DecidableEq

/-- `digits · 10^exponent`. -/
structure Scientific where
  digits : Nat
  exponent : Int

/-- The quarters of `2^q` in ten-to-the-`p`ths, as a numerator; `gridUnit` is the denominator. -/
def scaled (quarters : Nat) (q p : Int) : Nat :=
  quarters * Nat.pow 2 (q - 2).toNat * Nat.pow 10 (-p).toNat

/-- The denominator that belongs to `scaled`. -/
def gridUnit (q p : Int) : Nat :=
  Nat.pow 10 p.toNat * Nat.pow 2 (2 - q).toNat

/-- The multiple of `10^p` nearest to the value among those that round to it. -/
def Magnitude.nearOn? (tie : Tie) (x : Magnitude) (p : Int) : Option Nat :=
  let unit := gridUnit x.exponent p
  let value := scaled (4 * x.significand) x.exponent p
  let low := scaled (4 * x.significand - if x.nearBelow then 1 else 2) x.exponent p
  let high := scaled (4 * x.significand + 2) x.exponent p
  let closed := x.significand % 2 == 0
  let down := value / unit
  let rest := value % unit
  let downReads := if closed then decide (low ≤ down * unit) else decide (low < down * unit)
  let upReads :=
    if closed then decide ((down + 1) * unit ≤ high) else decide ((down + 1) * unit < high)
  let upNearer :=
    if 2 * rest = unit then (match tie with | .even => down % 2 == 1 | .up => true)
    else decide (unit < 2 * rest)
  match downReads, upReads with
  | true, true => some (if upNearer then down + 1 else down)
  | true, false => some down
  | false, true => some (down + 1)
  | false, false => none

/-- The least `k` such that the value is below `10^k`. -/
def Magnitude.decimalExponent (x : Magnitude) : Int :=
  let above := x.significand * Nat.pow 2 x.exponent.toNat
  let below := Nat.pow 2 (-x.exponent).toNat
  if below ≤ above then decimalLength (above / below)
  else 1 - (decimalLength ((below - 1) / above) : Int)

/-- The first hit on the grids `10^p`, `10^(p-1)`, … of which `count` are tried. -/
def Magnitude.firstHit (tie : Tie) (x : Magnitude) : Nat → Int → Scientific
  | 0, p => ⟨scaled (4 * x.significand) x.exponent p / gridUnit x.exponent p, p⟩
  | count + 1, p =>
    match x.nearOn? tie p with
    | some digits => ⟨digits, p⟩
    | none => x.firstHit tie count (p - 1)

/-- The same decimal without zeros at its end. -/
def Scientific.trimZeros : Nat → Scientific → Scientific
  | 0, d => d
  | fuel + 1, d =>
    if d.digits % 10 = 0 ∧ d.digits ≠ 0 then trimZeros fuel ⟨d.digits / 10, d.exponent + 1⟩ else d

/-- The shortest decimal that reads back as the finite non-zero double with the given bits, without
its sign.  Seventeen digits always suffice. -/
def shortest (tie : Tie) (bits : UInt64) : Scientific :=
  let x := Magnitude.ofBits bits
  (x.firstHit tie 17 (x.decimalExponent - 1)).trimZeros 17

end DeferredStyle.Decimal
