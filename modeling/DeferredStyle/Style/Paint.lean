import DeferredStyle.Style.Color

/-!
# Paints

What a shape or a text is filled with.
-/

set_option autoImplicit false

namespace DeferredStyle

/-- A translucent material. -/
inductive Material where
  | ultraThin
  | thin
  | regular
  | thick
  | ultraThick
  deriving DecidableEq

/-- The name of a material. -/
def Material.name : Material → String
  | ultraThin => "ultraThin"
  | thin => "thin"
  | regular => "regular"
  | thick => "thick"
  | ultraThick => "ultraThick"

/-- What a shape or a text is filled with. -/
inductive Paint where
  | solid (color : Color)
  | tinted (color : Color)
  | gradient (stops : List Color)
  | material (material : Material)
  | windowBackground
  | opacity (base : Paint) (amount : Float)

namespace Paint

/-- Whether two paints are the same up to the equality of numbers. -/
def beq : Paint → Paint → Bool
  | solid a, solid b => a == b
  | tinted a, tinted b => a == b
  | gradient a, gradient b => a == b
  | material a, material b => a == b
  | windowBackground, windowBackground => true
  | opacity a x, opacity b y => beq a b && x == y
  | _, _ => false

instance : BEq Paint := ⟨beq⟩

/-- The materials that paint by themselves, by the name of their case. -/
def materials : List (String × Paint) :=
  [("ultraThinMaterial", material .ultraThin),
    ("thinMaterial", material .thin),
    ("regularMaterial", material .regular),
    ("thickMaterial", material .thick),
    ("ultraThickMaterial", material .ultraThick)]

/-- The JSON value of a paint. -/
def toJson : Paint → Json
  | solid color => .object [("solid", color.toJson)]
  | tinted color => .object [("tinted", color.toJson)]
  | gradient stops => .object [("gradient", .array (stops.map Color.toJson))]
  | material m => .object [("material", .string m.name)]
  | windowBackground => .string "windowBackground"
  | opacity base amount =>
    .object [("opacity", .object [("base", base.toJson), ("amount", .number (.float amount))])]

/-- The numbers in a paint. -/
def floats : Paint → List Float
  | solid color => color.floats
  | tinted color => color.floats
  | gradient stops => stops.flatMap Color.floats
  | material _ => []
  | windowBackground => []
  | opacity base amount => base.floats ++ [amount]

end Paint

end DeferredStyle
