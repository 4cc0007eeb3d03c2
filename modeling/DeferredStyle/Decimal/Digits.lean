/-!
# Decimal digits

Whole numbers as text: the digits of a number, the number of a run of digits, and the two texts
with an optional sign that attributes and versions use.

* `natOfDigits?` — the number of a non-empty run of ASCII digits; leading zeros are allowed.
* `unsigned?` — digits after an optional single `+`.
* `signed?` — digits after an optional single `+` or `-`.
* `decimalLength` — how many digits a number has.
-/

set_option autoImplicit false

namespace DeferredStyle.Decimal

/-- The value of an ASCII digit. -/
def digitValue? (c : Char) : Option Nat :=
  if '0' ≤ c ∧ c ≤ '9' then some (c.toNat - '0'.toNat) else none

/-- The number with the given digits, most significant first, after `start`. -/
def ofDigits (start : Nat) (digits : List Nat) : Nat :=
  digits.foldl (fun n digit => 10 * n + digit) start

/-- The digit values of a run of ASCII digits, or nothing if another character stands in it. -/
def digitValues? : List Char → Option (List Nat)
  | [] => some []
  | c :: cs =>
    match digitValue? c, digitValues? cs with
    | some digit, some digits => some (digit :: digits)
    | _, _ => none

/-- The number of a non-empty run of ASCII digits. -/
def natOfDigits? (cs : List Char) : Option Nat :=
  if cs.isEmpty then none else (digitValues? cs).map (ofDigits 0)

/-- Digits after an optional `+`. -/
def unsigned? : List Char → Option Nat
  | '+' :: cs => natOfDigits? cs
  | cs => natOfDigits? cs

/-- Digits after an optional `+` or `-`. -/
def signed? : List Char → Option Int
  | '+' :: cs => (natOfDigits? cs).map Int.ofNat
  | '-' :: cs => (natOfDigits? cs).map fun n => -Int.ofNat n
  | cs => (natOfDigits? cs).map Int.ofNat

/-- The 32-bit number of a text that `unsigned?` accepts, if it fits. -/
def uint32? (cs : List Char) : Option UInt32 :=
  match unsigned? cs with
  | some n => if n < UInt32.size then some (UInt32.ofNat n) else none
  | none => none

/-- The signed 64-bit number of a text that `signed?` accepts, if it fits. -/
def int64? (cs : List Char) : Option Int64 :=
  match signed? cs with
  | some n =>
    if -0x8000000000000000 ≤ n ∧ n < 0x8000000000000000 then some (Int64.ofInt n) else none
  | none => none

/-- The digits of a number, most significant first, without leading zeros. -/
def digitsOf (n : Nat) : List Char :=
  Nat.toDigits 10 n

/-- How many digits a number has; zero has none. -/
def decimalLength (n : Nat) : Nat :=
  if n = 0 then 0 else (digitsOf n).length

end DeferredStyle.Decimal
