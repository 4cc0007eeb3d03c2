import DeferredStyle.Json.Value

/-!
# Fonts

A font is a system font of a size or the font of a text style; either may have a weight.
-/

set_option autoImplicit false

namespace DeferredStyle

/-- The weight of a font. -/
inductive FontWeight where
  | ultraLight
  | thin
  | light
  | regular
  | medium
  | semibold
  | bold
  | heavy
  | black
  deriving DecidableEq

namespace FontWeight

/-- The weights by name, in increasing order. -/
def names : List (String × FontWeight) :=
  [("ultraLight", ultraLight), ("thin", thin), ("light", light), ("regular", regular),
    ("medium", medium), ("semibold", semibold), ("bold", bold), ("heavy", heavy),
    ("black", black)]

/-- The name of a weight. -/
def name : FontWeight → String
  | ultraLight => "ultraLight"
  | thin => "thin"
  | light => "light"
  | regular => "regular"
  | medium => "medium"
  | semibold => "semibold"
  | bold => "bold"
  | heavy => "heavy"
  | black => "black"

end FontWeight

/-- The design of a system font. -/
inductive FontDesign where
  | default
  | serif
  | rounded
  | monospaced
  deriving DecidableEq

namespace FontDesign

/-- The designs by name. -/
def names : List (String × FontDesign) :=
  [("default", default), ("serif", serif), ("rounded", rounded), ("monospaced", monospaced)]

/-- The name of a design. -/
def name : FontDesign → String
  | default => "default"
  | serif => "serif"
  | rounded => "rounded"
  | monospaced => "monospaced"

end FontDesign

/-- The role of a text. -/
inductive TextStyle where
  | largeTitle
  | title
  | title2
  | title3
  | headline
  | subheadline
  | body
  | callout
  | footnote
  | caption
  | caption2
  deriving DecidableEq

namespace TextStyle

/-- The text styles by name, from the largest role to the smallest. -/
def names : List (String × TextStyle) :=
  [("largeTitle", largeTitle), ("title", title), ("title2", title2), ("title3", title3),
    ("headline", headline), ("subheadline", subheadline), ("body", body), ("callout", callout),
    ("footnote", footnote), ("caption", caption), ("caption2", caption2)]

/-- The name of a text style. -/
def name : TextStyle → String
  | largeTitle => "largeTitle"
  | title => "title"
  | title2 => "title2"
  | title3 => "title3"
  | headline => "headline"
  | subheadline => "subheadline"
  | body => "body"
  | callout => "callout"
  | footnote => "footnote"
  | caption => "caption"
  | caption2 => "caption2"

end TextStyle

/-- A font. -/
inductive Font where
  | system (size : Float) (weight : Option FontWeight) (design : Option FontDesign)
  | style (style : TextStyle) (weight : Option FontWeight)

namespace Font

/-- Whether two fonts are the same up to the equality of numbers. -/
def beq : Font → Font → Bool
  | system size weight design, system size' weight' design' =>
    size == size' && weight == weight' && design == design'
  | style s weight, style s' weight' => s == s' && weight == weight'
  | _, _ => false

instance : BEq Font := ⟨beq⟩

/-- The font of each text style, by the name of the style. -/
def textStyles : List (String × Font) :=
  TextStyle.names.map fun (name, s) => (name, style s none)

/-- The font in another weight. -/
def withWeight (font : Font) (weight : FontWeight) : Font :=
  match font with
  | system size _ design => system size (some weight) design
  | style s _ => style s (some weight)

/-- The JSON value of an optional name. -/
def optionalName {α : Type} (name : α → String) : Option α → Json
  | none => .null
  | some a => .string (name a)

/-- The JSON value of a font. -/
def toJson : Font → Json
  | system size weight design =>
    .object [("system", .object
      [("size", .number (.float size)), ("weight", optionalName FontWeight.name weight),
        ("design", optionalName FontDesign.name design)])]
  | style s weight =>
    .object [("style", .object
      [("style", .string s.name), ("weight", optionalName FontWeight.name weight)])]

/-- The numbers in a font. -/
def floats : Font → List Float
  | system size _ _ => [size]
  | style _ _ => []

end Font

end DeferredStyle
