import DeferredStyle.Decimal.Digits
import DeferredStyle.Text.Blank

/-!
# Versions

An operating system version has up to three components, and missing ones are zero.

* `Version.text` — the major and minor component, and the patch unless it is zero.
* `Version.ofText?` — one to three components, blanks around them ignored.
* `Version.compare` — the first component that differs decides.
-/

set_option autoImplicit false

namespace DeferredStyle

/-- An operating system version such as `17.0` or `16.1.2`. -/
structure Version where
  major : UInt32
  minor : UInt32
  patch : UInt32
  deriving DecidableEq

namespace Version

/-- The version without patches. -/
def ofMinor (major minor : UInt32) : Version := ⟨major, minor, 0⟩

/-- A version as text. -/
def text (v : Version) : String :=
  let release := toString v.major.toNat ++ "." ++ toString v.minor.toNat
  if v.patch = 0 then release else release ++ "." ++ toString v.patch.toNat

/-- The components between points, if each is a 32-bit number. -/
def components? : List (List Char) → Option (List UInt32)
  | [] => some []
  | part :: parts =>
    match Decimal.uint32? part, components? parts with
    | some n, some ns => some (n :: ns)
    | _, _ => none

/-- The version of one to three components. -/
def ofComponents? : List UInt32 → Option Version
  | [major] => some ⟨major, 0, 0⟩
  | [major, minor] => some ⟨major, minor, 0⟩
  | [major, minor, patch] => some ⟨major, minor, patch⟩
  | _ => none

/-- The version that a text denotes. -/
def ofText? (text : String) : Option Version :=
  (components? (Text.splitAt (· == '.') (Text.trimChars text.toList))).bind ofComponents?

/-- The message for a text that denotes no version. -/
def invalidMessage (text : String) : String :=
  s!"invalid version `{text}`"

/-- Whether `a` came before `b`: the first component that differs is smaller. -/
def before (a b : Version) : Prop :=
  a.major < b.major ∨ a.major = b.major ∧
    (a.minor < b.minor ∨ a.minor = b.minor ∧ a.patch < b.patch)

instance : LT Version := ⟨before⟩

instance (a b : Version) : Decidable (a < b) :=
  inferInstanceAs (Decidable (a.major < b.major ∨ a.major = b.major ∧
    (a.minor < b.minor ∨ a.minor = b.minor ∧ a.patch < b.patch)))

/-- The order of two versions. -/
def compare (a b : Version) : Ordering :=
  if a < b then .lt else if a = b then .eq else .gt

end Version

end DeferredStyle
