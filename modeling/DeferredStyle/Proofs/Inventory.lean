import DeferredStyle.Proofs.Registration

/-!
# The shapes of the standard vocabulary

Every shape of the standard vocabulary, with one constructor for each that has a builder of its own.
What holds of all of them is proved by cases on this list, so that the tables of the vocabulary are
taken apart only here.

* `Vocabulary.Named` — the values that the cases without parameters stand for.
* `Vocabulary.HasShape` — the shapes of each type and of each modifier.
* `Registry.hasShape_of_registers` — a standard registry has no other shapes, and only those that
  exist on its platform.
-/

set_option autoImplicit false

namespace DeferredStyle

namespace Vocabulary

/-- The values that the cases of a type stand for in every environment. -/
inductive Named : String → Value → Prop
  | length (x : Float) : Named "Length" (.float x)
  | alignment (a : Alignment) : Named "Alignment" (.alignment a)
  | edgeSet (edges : EdgeSet) : Named "EdgeSet" (.edgeSet edges)
  | color (c : Color) : Named "Color" (.color c)
  | material (m : Material) : Named "Paint" (.paint (.material m))
  | textStyle (s : TextStyle) : Named "Font" (.font (.style s none))
  | fontWeight (weight : FontWeight) : Named "FontWeight" (.fontWeight weight)
  | fontDesign (design : FontDesign) : Named "FontDesign" (.fontDesign design)

/-- The shapes of the types and the modifiers, by the name of their catalog. -/
inductive HasShape : String → Shape → Prop
  | named {typeName : String} {value : Value} (name : String) (h : Named typeName value) :
      HasShape typeName (.bareCase name (.constant value))
  | hexColor : HasShape "Color" (.initializer [.positional (.leaf hexLeaf)] colorOfHex)
  | componentColor : HasShape "Color"
      (.initializer
        [.labeled "red" (.leaf .float), .labeled "green" (.leaf .float),
          .labeled "blue" (.leaf .float),
          (Param.labeled "opacity" (.leaf .float)).withDefault (.float 1.0)]
        colorOfComponents)
  | fadedColor : HasShape "Color"
      (.method (.type "Color") "opacity" [.positional (.leaf .float)] fadedColor)
  | schemeColor (name : String) (dark light : Color) : HasShape "Color"
      (Shape.bareCase name (schemeColor dark light)).asContextual
  | solid : HasShape "Paint" (.enumCase "solid" [.positional (.type "Color")] solid)
  | tinted : HasShape "Paint" (.enumCase "tinted" [.positional (.type "Color")] tinted)
  | gradient : HasShape "Paint"
      (.enumCase "gradient" [.labeled "stops" (.list (.type "Color"))] gradient)
  | fadedPaint : HasShape "Paint"
      (.method (.type "Paint") "opacity" [.positional (.leaf .float)] fadedPaint)
  | windowBackground : HasShape "Paint"
      ((Shape.bareCase "windowBackground" (.constant (.paint .windowBackground))).available
        ((Availability.only [.macos]).introducedIn .macos (.ofMinor 14 0)))
  | systemFont : HasShape "Font"
      (((Shape.staticFunction "system"
        [.labeled "size" (.leaf .float), optionalParam "weight" (.type "FontWeight"),
          optionalParam "design" (.type "FontDesign")]
        systemFont).available
        ((Availability.everywhere.introducedIn .ios (.ofMinor 16 1)).introducedIn .macos
          (.ofMinor 13 0))).withFallback undesignedFont)
  | weightedFont : HasShape "Font"
      (.method (.type "Font") "weight" [.positional (.type "FontWeight")] weightedFont)
  | fixedFrame : HasShape "frame"
      (.initializer [optionalLength "width", optionalLength "height", alignmentParam] fixedFrame)
  | flexibleFrame : HasShape "frame"
      (.initializer [optionalLength "maxWidth", optionalLength "maxHeight", alignmentParam]
        flexibleFrame)
  | uniformPadding : HasShape "padding" (.initializer [.positional lengthRule] uniformPadding)
  | edgePadding : HasShape "padding"
      (.initializer
        [(Param.positional (.type "EdgeSet")).withDefault (.string "all"),
          (Param.positional (.optional lengthRule)).withDefault .nil]
        edgePadding)
  | foregroundStyle : HasShape "foregroundStyle"
      (.initializer [.positional (.type "Paint")] (ofValue Paint .foregroundStyle))
  | background : HasShape "background"
      (.initializer [.positional (.type "Paint")] (ofValue Paint .background))
  | opacity : HasShape "opacity"
      (.initializer [.positional (.leaf .float)] (ofValue Float .opacity))
  | font : HasShape "font" (.initializer [.positional (.type "Font")] (ofValue Font .font))
  | fontWeight : HasShape "fontWeight"
      (.initializer [.positional (.type "FontWeight")] (ofValue FontWeight .fontWeight))
  | cornerRadius : HasShape "cornerRadius"
      (.initializer [.positional lengthRule] (ofValue Float .cornerRadius))
  | shift : HasShape "offset"
      (.initializer
        [(Param.labeled "x" lengthRule).withDefault (.int 0),
          (Param.labeled "y" lengthRule).withDefault (.int 0)]
        shift)

/-! ## Types -/

theorem hasShape_of_mem_casesOf {α : Type} {typeName : String} {wrap : α → Value}
    {names : List (String × α)} (h : ∀ entry ∈ names, Named typeName (wrap entry.2)) :
    ∀ shape ∈ casesOf wrap names, HasShape typeName shape := by
  intro shape hshape
  obtain ⟨⟨name, a⟩, hentry, rfl⟩ := List.mem_map.mp hshape
  exact .named name (h _ hentry)

theorem named_of_mem_materials : ∀ entry ∈ Paint.materials, Named "Paint" (.paint entry.2) := by
  intro entry hentry
  simp only [Paint.materials, List.mem_cons, List.not_mem_nil, or_false] at hentry
  rcases hentry with rfl | rfl | rfl | rfl | rfl <;> exact .material _

theorem named_of_mem_textStyles : ∀ entry ∈ Font.textStyles, Named "Font" (.font entry.2) := by
  intro entry hentry
  obtain ⟨⟨name, s⟩, -, rfl⟩ := List.mem_map.mp hentry
  exact .textStyle s

theorem hasShape_of_mem_color : ∀ shape ∈ color.shapes, HasShape "Color" shape := by
  intro shape hshape
  rcases List.mem_append.mp hshape with hshape | hshape
  · rcases List.mem_append.mp hshape with hshape | hshape
    · simp only [List.mem_cons, List.not_mem_nil, or_false] at hshape
      rcases hshape with rfl | rfl | rfl
      · exact .hexColor
      · exact .componentColor
      · exact .fadedColor
    · exact hasShape_of_mem_casesOf (fun _ _ => .color _) shape hshape
  · simp only [List.mem_cons, List.not_mem_nil, or_false] at hshape
    rcases hshape with rfl | rfl <;> exact .schemeColor _ _ _

theorem hasShape_of_mem_paint : ∀ shape ∈ paint.shapes, HasShape "Paint" shape := by
  intro shape hshape
  rcases List.mem_append.mp hshape with hshape | hshape
  · simp only [List.mem_cons, List.not_mem_nil, or_false] at hshape
    rcases hshape with rfl | rfl | rfl | rfl | rfl
    · exact .solid
    · exact .tinted
    · exact .gradient
    · exact .fadedPaint
    · exact .windowBackground
  · exact hasShape_of_mem_casesOf named_of_mem_materials shape hshape

theorem hasShape_of_mem_font : ∀ shape ∈ font.shapes, HasShape "Font" shape := by
  intro shape hshape
  rcases List.mem_append.mp hshape with hshape | hshape
  · simp only [List.mem_cons, List.not_mem_nil, or_false] at hshape
    rcases hshape with rfl | rfl
    · exact .systemFont
    · exact .weightedFont
  · exact hasShape_of_mem_casesOf named_of_mem_textStyles shape hshape

theorem hasShape_of_mem_types :
    ∀ catalog ∈ types, ∀ shape ∈ catalog.shapes, HasShape catalog.typeName shape := by
  intro catalog hcatalog
  simp only [types, List.mem_cons, List.not_mem_nil, or_false] at hcatalog
  rcases hcatalog with rfl | rfl | rfl | rfl | rfl | rfl | rfl | rfl
  · exact hasShape_of_mem_casesOf fun _ _ => .length _
  · exact hasShape_of_mem_casesOf fun _ _ => .alignment _
  · exact hasShape_of_mem_casesOf fun _ _ => .edgeSet _
  · exact hasShape_of_mem_color
  · exact hasShape_of_mem_paint
  · exact hasShape_of_mem_font
  · exact hasShape_of_mem_casesOf fun _ _ => .fontWeight _
  · exact hasShape_of_mem_casesOf fun _ _ => .fontDesign _

/-! ## Modifiers -/

theorem hasShape_of_mem_modifiers :
    ∀ catalog ∈ modifiers, ∀ shape ∈ catalog.shapes, HasShape catalog.typeName shape := by
  intro catalog hcatalog shape hshape
  simp only [modifiers, List.mem_cons, List.not_mem_nil, or_false] at hcatalog
  rcases hcatalog with rfl | rfl | rfl | rfl | rfl | rfl | rfl | rfl | rfl <;>
    simp only [frame, padding, offset, single, List.mem_cons, List.not_mem_nil, or_false] at hshape
  · rcases hshape with rfl | rfl
    · exact .fixedFrame
    · exact .flexibleFrame
  · rcases hshape with rfl | rfl
    · exact .uniformPadding
    · exact .edgePadding
  · exact hshape ▸ .foregroundStyle
  · exact hshape ▸ .background
  · exact hshape ▸ .opacity
  · exact hshape ▸ .font
  · exact hshape ▸ .fontWeight
  · exact hshape ▸ .cornerRadius
  · exact hshape ▸ .shift

/-- Cases that stand without arguments have no parameters. -/
theorem HasShape.params_of_isBareCase {typeName : String} {shape : Shape}
    (h : HasShape typeName shape) (hcase : shape.isBareCase = true) : shape.params = [] := by
  cases h <;> first | rfl | cases hcase

end Vocabulary

/-! ## Registries -/

namespace Registry

/-- The catalog is registered, for a type or for a modifier. -/
def Registers (registry : Registry) (catalog : Catalog) : Prop :=
  (∃ name, registry.catalog? name = some catalog) ∨ ∃ name, registry.modifier? name = some catalog

variable {platform : Platform} {catalog : Catalog}

/-- A catalog of a standard registry is one of the vocabulary, reduced to the platform. -/
theorem exists_of_registers (h : (standard platform).Registers catalog) :
    ∃ source, (source ∈ Vocabulary.types ∨ source ∈ Vocabulary.modifiers) ∧
      source.forPlatform platform = catalog := by
  rcases h with ⟨name, h⟩ | ⟨name, h⟩
  · rw [catalog?_standard] at h
    obtain ⟨source, hsource, rfl⟩ := Option.map_eq_some_iff.mp h
    exact ⟨source, .inl (mem_of_lastNamed? hsource), rfl⟩
  · rw [modifier?_standard] at h
    obtain ⟨source, hsource, rfl⟩ := Option.map_eq_some_iff.mp h
    exact ⟨source, .inr (mem_of_lastNamed? hsource), rfl⟩

/-- **A standard registry has the shapes of the vocabulary that exist on its platform.** -/
theorem hasShape_of_registers (h : (standard platform).Registers catalog) :
    ∀ shape ∈ catalog.shapes, Vocabulary.HasShape catalog.typeName shape ∧
      shape.availability.isAvailableOn platform = true := by
  obtain ⟨source, hsource, rfl⟩ := exists_of_registers h
  intro shape hshape
  obtain ⟨hmem, havailable⟩ := List.mem_filter.mp hshape
  refine ⟨?_, havailable⟩
  rcases hsource with hsource | hsource
  · exact Vocabulary.hasShape_of_mem_types source hsource shape hmem
  · exact Vocabulary.hasShape_of_mem_modifiers source hsource shape hmem

end Registry

end DeferredStyle
