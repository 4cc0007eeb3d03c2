import DeferredStyle.Vocabulary.Font

/-!
# Modifiers

One catalog per modifier, under the name that its nodes are tagged with.
-/

set_option autoImplicit false

namespace DeferredStyle.Vocabulary

/-- Lengths. -/
def lengthRule : Rule := .type "Length"

/-- A length that may be left out or nil. -/
def optionalLength (label : String) : Param := optionalParam label lengthRule

/-- An alignment, which is centered if left out. -/
def alignmentParam : Param :=
  (Param.labeled "alignment" (.type "Alignment")).withDefault (.string "center")

/-- A frame of a fixed size. -/
def fixedFrame : Builder where
  build args := do
    let alignment ← args.value Alignment 2
    return .modifier (.frame (args.optional Float 0) (args.optional Float 1) alignment)
  events args := args.ignored Float 0 ++ args.ignored Float 1

/-- A frame of a largest size. -/
def flexibleFrame : Builder where
  build args := do
    let alignment ← args.value Alignment 2
    return .modifier (.flexFrame (args.optional Float 0) (args.optional Float 1) alignment)
  events args := args.ignored Float 0 ++ args.ignored Float 1

/-- The same padding at every edge. -/
def uniformPadding : Builder := .silent fun args => do
  let length ← args.value Float 0
  return .modifier (.padding .all (some length))

/-- Padding at some edges. -/
def edgePadding : Builder where
  build args := do
    let edges ← args.value EdgeSet 0
    return .modifier (.padding edges (args.optional Float 1))
  events args :=
    match args.value EdgeSet 0 with
    | .ok _ => args.ignored Float 1
    | .error _ => []

/-- A modifier of one value. -/
def ofValue (α : Type) [FromValue α] (make : α → Modifier) : Builder :=
  .silent fun args => do
    let a ← args.value α 0
    return .modifier (make a)

/-- A shift in both directions. -/
def shift : Builder := .silent fun args => do
  let x ← args.value Float 0
  let y ← args.value Float 1
  return .modifier (.offset x y)

/-- The catalog of a modifier with one positional parameter. -/
def single (name : String) (rule : Rule) (builder : Builder) : Catalog :=
  ⟨name, none, [.initializer [.positional rule] builder]⟩

/-- Frames. -/
def frame : Catalog where
  typeName := "frame"
  literal := none
  shapes :=
    [.initializer [optionalLength "width", optionalLength "height", alignmentParam] fixedFrame,
      .initializer [optionalLength "maxWidth", optionalLength "maxHeight", alignmentParam]
        flexibleFrame]

/-- Padding.  A lone length is tried first, so that a lone attribute is taken as an amount. -/
def padding : Catalog where
  typeName := "padding"
  literal := none
  shapes :=
    [.initializer [.positional lengthRule] uniformPadding,
      .initializer
        [(Param.positional (.type "EdgeSet")).withDefault (.string "all"),
          (Param.positional (.optional lengthRule)).withDefault .nil]
        edgePadding]

/-- Shifts. -/
def offset : Catalog where
  typeName := "offset"
  literal := none
  shapes :=
    [.initializer
      [(Param.labeled "x" lengthRule).withDefault (.int 0),
        (Param.labeled "y" lengthRule).withDefault (.int 0)]
      shift]

/-- The catalogs of all modifiers. -/
def modifiers : List Catalog :=
  [frame, padding,
    single "foregroundStyle" (.type "Paint") (ofValue Paint .foregroundStyle),
    single "background" (.type "Paint") (ofValue Paint .background),
    single "opacity" (.leaf .float) (ofValue Float .opacity),
    single "font" (.type "Font") (ofValue Font .font),
    single "fontWeight" (.type "FontWeight") (ofValue FontWeight .fontWeight),
    single "cornerRadius" lengthRule (ofValue Float .cornerRadius),
    offset]

end DeferredStyle.Vocabulary
