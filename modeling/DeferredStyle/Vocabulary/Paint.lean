import DeferredStyle.Vocabulary.Color

/-!
# Paints

A paint is a color, a gradient, a material, the background of a window, or another paint with less
opacity.  A bare color paints solid.
-/

set_option autoImplicit false

namespace DeferredStyle.Vocabulary

/-- The solid paint of a color. -/
def paintLiteral (literal : Literal) : Except String Value :=
  match colorLiteral literal with
  | .ok (.color color) => .ok (.paint (.solid color))
  | .ok other => .error s!"expected a color, found {other.kind}"
  | .error reason => .error reason

/-- Colors as paints. -/
def paintLeaf : Leaf := .uniform "Paint" paintLiteral

/-- A color all over. -/
def solid : Builder := .silent fun args => do
  let color ← args.value Color 0
  return .paint (.solid color)

/-- A color over what is below. -/
def tinted : Builder := .silent fun args => do
  let color ← args.value Color 0
  return .paint (.tinted color)

/-- Several colors blending into each other. -/
def gradient : Builder := .silent fun args => do
  let stops ← args.value (List Color) 0
  if stops.isEmpty then
    .error (.invalidValue args.shape "a gradient needs at least one stop")
  else return .paint (.gradient stops)

/-- A paint with less opacity. -/
def fadedPaint : Builder := .silent fun args => do
  let base ← args.value Paint 0
  let amount ← args.value Float 1
  return .paint (.opacity base amount)

/-- Paints. -/
def paint : Catalog where
  typeName := "Paint"
  literal := some paintLeaf
  shapes :=
    [.enumCase "solid" [.positional (.type "Color")] solid,
      .enumCase "tinted" [.positional (.type "Color")] tinted,
      .enumCase "gradient" [.labeled "stops" (.list (.type "Color"))] gradient,
      .method (.type "Paint") "opacity" [.positional (.leaf .float)] fadedPaint,
      (Shape.bareCase "windowBackground" (.constant (.paint .windowBackground))).available
        ((Availability.only [.macos]).introducedIn .macos (.ofMinor 14 0))] ++
    casesOf .paint Paint.materials

end DeferredStyle.Vocabulary
