import DeferredStyle.Style.Font
import DeferredStyle.Style.Layout
import DeferredStyle.Style.Paint

/-!
# Modifiers

A resolved view modifier: one property of the view it is applied to.
-/

set_option autoImplicit false

namespace DeferredStyle

/-- One property of a view. -/
inductive Modifier where
  | frame (width height : Option Float) (alignment : Alignment)
  | flexFrame (maxWidth maxHeight : Option Float) (alignment : Alignment)
  | padding (edges : EdgeSet) (length : Option Float)
  | foregroundStyle (paint : Paint)
  | background (paint : Paint)
  | opacity (amount : Float)
  | font (font : Font)
  | fontWeight (weight : FontWeight)
  | cornerRadius (radius : Float)
  | offset (x y : Float)

namespace Modifier

/-- Whether two modifiers are the same up to the equality of numbers. -/
def beq : Modifier → Modifier → Bool
  | frame w h a, frame w' h' a' => w == w' && h == h' && a == a'
  | flexFrame w h a, flexFrame w' h' a' => w == w' && h == h' && a == a'
  | padding e l, padding e' l' => e == e' && l == l'
  | foregroundStyle p, foregroundStyle p' => p == p'
  | background p, background p' => p == p'
  | opacity x, opacity x' => x == x'
  | font f, font f' => f == f'
  | fontWeight w, fontWeight w' => w == w'
  | cornerRadius r, cornerRadius r' => r == r'
  | offset x y, offset x' y' => x == x' && y == y'
  | _, _ => false

instance : BEq Modifier := ⟨beq⟩

/-- The name that a modifier is written with. -/
def name : Modifier → String
  | frame _ _ _ => "frame"
  | flexFrame _ _ _ => "frame"
  | padding _ _ => "padding"
  | foregroundStyle _ => "foregroundStyle"
  | background _ => "background"
  | opacity _ => "opacity"
  | font _ => "font"
  | fontWeight _ => "fontWeight"
  | cornerRadius _ => "cornerRadius"
  | offset _ _ => "offset"

/-- The JSON value of a number. -/
def numberJson (x : Float) : Json := .number (.float x)

/-- The JSON value of a number that may be absent. -/
def optionalJson : Option Float → Json
  | none => .null
  | some x => numberJson x

/-- The JSON value of a modifier. -/
def toJson : Modifier → Json
  | frame width height alignment =>
    .object [("frame", .object
      [("width", optionalJson width), ("height", optionalJson height),
        ("alignment", .string alignment.name)])]
  | flexFrame maxWidth maxHeight alignment =>
    .object [("flexFrame", .object
      [("maxWidth", optionalJson maxWidth), ("maxHeight", optionalJson maxHeight),
        ("alignment", .string alignment.name)])]
  | padding edges length =>
    .object [("padding", .object [("edges", edges.toJson), ("length", optionalJson length)])]
  | foregroundStyle paint => .object [("foregroundStyle", paint.toJson)]
  | background paint => .object [("background", paint.toJson)]
  | opacity amount => .object [("opacity", numberJson amount)]
  | font f => .object [("font", f.toJson)]
  | fontWeight weight => .object [("fontWeight", .string weight.name)]
  | cornerRadius radius => .object [("cornerRadius", numberJson radius)]
  | offset x y => .object [("offset", .object [("x", numberJson x), ("y", numberJson y)])]

/-- The numbers in a modifier. -/
def floats : Modifier → List Float
  | frame width height _ => width.toList ++ height.toList
  | flexFrame maxWidth maxHeight _ => maxWidth.toList ++ maxHeight.toList
  | padding _ length => length.toList
  | foregroundStyle paint => paint.floats
  | background paint => paint.floats
  | opacity amount => [amount]
  | font f => f.floats
  | fontWeight _ => []
  | cornerRadius radius => [radius]
  | offset x y => [x, y]

end Modifier

end DeferredStyle
