import DeferredStyle.Vocabulary.Cases

/-!
# Colors

A color is written in hexadecimal, by its components, by its name, or as another color with less
opacity.  Two semantic colors follow the color scheme.
-/

set_option autoImplicit false

namespace DeferredStyle.Vocabulary

/-- The color that a text names or denotes in hexadecimal. -/
def colorOfText? (text : String) : Option Color :=
  (Color.named? text).or (Color.ofHex? text)

/-- A name or a hexadecimal text. -/
def colorLiteral : Literal → Except String Value
  | .string text =>
    match colorOfText? (Text.trim text) with
    | some color => .ok (.color color)
    | none => .error s!"`{text}` is not a color name or hex code"
  | other => .error s!"expected a color string, found {other.kind} {other.text}"

/-- A hexadecimal text. -/
def hexLiteral : Literal → Except String Value
  | .string text =>
    match Color.ofHex? (Text.trim text) with
    | some color => .ok (.color color)
    | none => .error s!"`{text}` is not a hex color code"
  | other => .error s!"expected a hex color string, found {other.kind} {other.text}"

/-- Names and hexadecimal texts. -/
def colorLeaf : Leaf := .uniform "Color" colorLiteral

/-- Hexadecimal texts in documents, so that a bare name is left to the cases; attributes may name a
color too. -/
def hexLeaf : Leaf := ⟨"HexColor", hexLiteral, colorLiteral⟩

/-- The color of a hexadecimal text. -/
def colorOfHex : Builder := .silent fun args => do
  let color ← args.value Color 0
  return .color color

/-- The color of its components. -/
def colorOfComponents : Builder := .silent fun args => do
  let red ← args.value Float 0
  let green ← args.value Float 1
  let blue ← args.value Float 2
  let opacity ← args.value Float 3
  return .color ⟨red, green, blue, opacity⟩

/-- A color with less opacity. -/
def fadedColor : Builder := .silent fun args => do
  let base ← args.value Color 0
  let factor ← args.value Float 1
  return .color (base.withOpacity factor)

/-- A color for dark schemes and another for all others. -/
def schemeColor (dark light : Color) : Builder :=
  .silent fun args => .ok (.color (if args.isDark then dark else light))

/-- The color of what is most prominent. -/
def primary : Builder := schemeColor Color.Palette.white Color.Palette.black

/-- The color of what is less prominent. -/
def secondary : Builder := schemeColor ⟨0.92, 0.92, 0.96, 0.6⟩ ⟨0.24, 0.24, 0.26, 0.6⟩

/-- The cases of colors that are the same in every scheme.  The literals of colors have the table
`Color.named?` of their own. -/
def namedColors : List (String × Color) :=
  [("red", Color.Palette.red),
    ("orange", Color.Palette.orange),
    ("yellow", Color.Palette.yellow),
    ("green", Color.Palette.green),
    ("blue", Color.Palette.blue),
    ("purple", Color.Palette.purple),
    ("pink", Color.Palette.pink),
    ("white", Color.Palette.white),
    ("gray", Color.Palette.gray),
    ("black", Color.Palette.black),
    ("clear", Color.Palette.clear)]

/-- Colors. -/
def color : Catalog where
  typeName := "Color"
  literal := some colorLeaf
  shapes :=
    [.initializer [.positional (.leaf hexLeaf)] colorOfHex,
      .initializer
        [.labeled "red" (.leaf .float), .labeled "green" (.leaf .float),
          .labeled "blue" (.leaf .float),
          (Param.labeled "opacity" (.leaf .float)).withDefault (.float 1.0)]
        colorOfComponents,
      .method (.type "Color") "opacity" [.positional (.leaf .float)] fadedColor] ++
    casesOf .color namedColors ++
    [(Shape.bareCase "primary" primary).asContextual,
      (Shape.bareCase "secondary" secondary).asContextual]

end DeferredStyle.Vocabulary
