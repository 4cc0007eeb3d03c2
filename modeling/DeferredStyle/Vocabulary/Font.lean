import DeferredStyle.Vocabulary.Cases

/-!
# Fonts

A font is a system font, the font of a text style, or another font in a different weight.  Systems
that know no designs build system fonts without one.
-/

set_option autoImplicit false

namespace DeferredStyle.Vocabulary

/-- A system font. -/
def systemFont : Builder where
  build args := do
    let size ← args.value Float 0
    return .font (.system size (args.optional FontWeight 1) (args.optional FontDesign 2))
  events args :=
    match args.value Float 0 with
    | .ok _ => args.ignored FontWeight 1 ++ args.ignored FontDesign 2
    | .error _ => []

/-- A system font without a design. -/
def undesignedFont : Builder where
  build args := do
    let size ← args.value Float 0
    return .font (.system size (args.optional FontWeight 1) none)
  events args :=
    match args.value Float 0 with
    | .ok _ => args.ignored FontWeight 1
    | .error _ => []

/-- A font in another weight. -/
def weightedFont : Builder := .silent fun args => do
  let base ← args.value Font 0
  let weight ← args.value FontWeight 1
  return .font (base.withWeight weight)

/-- A labeled parameter that may be left out or nil. -/
def optionalParam (label : String) (rule : Rule) : Param :=
  (Param.labeled label (.optional rule)).withDefault .nil

/-- Fonts. -/
def font : Catalog where
  typeName := "Font"
  literal := some (leafOf "Font" .font Font.textStyles)
  shapes :=
    [((Shape.staticFunction "system"
        [.labeled "size" (.leaf .float), optionalParam "weight" (.type "FontWeight"),
          optionalParam "design" (.type "FontDesign")]
        systemFont).available
        ((Availability.everywhere.introducedIn .ios (.ofMinor 16 1)).introducedIn .macos
          (.ofMinor 13 0))).withFallback undesignedFont,
      .method (.type "Font") "weight" [.positional (.type "FontWeight")] weightedFont] ++
    casesOf .font Font.textStyles

/-- Weights of fonts. -/
def fontWeight : Catalog := namedCatalog "FontWeight" .fontWeight FontWeight.names

/-- Designs of fonts. -/
def fontDesign : Catalog := namedCatalog "FontDesign" .fontDesign FontDesign.names

end DeferredStyle.Vocabulary
