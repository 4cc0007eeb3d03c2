import DeferredStyle.Proofs.Registration

/-!
# Which builders read the environment

In the standard vocabulary only the builders of contextual shapes look at the environment.

* `Builder.IgnoresEnvironment` — the builder makes the same in every environment and without one.
* `Builder.ReadsDarkness` — the builder makes the same wherever it is dark and wherever it is not.
* `Registry.ignoresEnvironment_of_catalog?`, `Registry.ignoresEnvironment_of_modifier?` — all
  builders and fallbacks of shapes that are not contextual do, in the standard vocabulary.
-/

set_option autoImplicit false

namespace DeferredStyle

/-- The builder makes the same of its arguments in any environment and without one. -/
def Builder.IgnoresEnvironment (builder : Builder) : Prop :=
  ∀ args environment, builder.build { args with environment } = builder.build args

/-- The builder reads nothing of the environment but whether it is dark. -/
def Builder.ReadsDarkness (builder : Builder) : Prop :=
  ∀ label children (environment environment' : Environment),
    environment.isDark = environment'.isDark →
    builder.build ⟨label, children, some environment⟩ =
      builder.build ⟨label, children, some environment'⟩

/-- The builders of the shape ignore the environment unless it is contextual. -/
def Shape.IgnoresEnvironment (shape : Shape) : Prop :=
  shape.contextual = false →
    shape.builder.IgnoresEnvironment ∧
      ∀ fallback, shape.fallback = some fallback → fallback.IgnoresEnvironment

/-- The shapes ignore the environment. -/
def Catalog.IgnoresEnvironment (catalog : Catalog) : Prop :=
  ∀ shape ∈ catalog.shapes, shape.IgnoresEnvironment

namespace Shape

variable {shape : Shape}

theorem ignoresEnvironment_of_plain (h : shape.builder.IgnoresEnvironment)
    (hfallback : shape.fallback = none) : shape.IgnoresEnvironment := by
  refine fun _ => ⟨h, fun fallback heq => ?_⟩
  rw [hfallback] at heq
  cases heq

theorem ignoresEnvironment_of_contextual (h : shape.contextual = true) :
    shape.IgnoresEnvironment := by
  intro hcontextual
  rw [h] at hcontextual
  cases hcontextual

end Shape

theorem Catalog.IgnoresEnvironment.forPlatform {catalog : Catalog} (h : catalog.IgnoresEnvironment)
    (platform : Platform) : (catalog.forPlatform platform).IgnoresEnvironment :=
  fun shape hshape => h shape (List.mem_filter.mp hshape).1

/-! ## The standard vocabulary -/

namespace Vocabulary

theorem schemeColor_readsDarkness (dark light : Color) :
    (schemeColor dark light).ReadsDarkness := by
  intro label children environment environment' h
  show Except.ok (Value.color (if environment.isDark then dark else light)) =
    Except.ok (Value.color (if environment'.isDark then dark else light))
  rw [h]

theorem casesOf_ignoresEnvironment {α : Type} (wrap : α → Value) (names : List (String × α)) :
    ∀ shape ∈ casesOf wrap names, shape.IgnoresEnvironment := by
  intro shape hshape
  obtain ⟨⟨name, a⟩, -, rfl⟩ := List.mem_map.mp hshape
  exact Shape.ignoresEnvironment_of_plain (fun _ _ => rfl) rfl

theorem color_ignoresEnvironment : color.IgnoresEnvironment := by
  intro shape hshape
  rcases List.mem_append.mp hshape with hshape | hshape
  · rcases List.mem_append.mp hshape with hshape | hshape
    · simp only [List.mem_cons, List.not_mem_nil, or_false] at hshape
      rcases hshape with rfl | rfl | rfl <;>
        exact Shape.ignoresEnvironment_of_plain (fun _ _ => rfl) rfl
    · exact casesOf_ignoresEnvironment _ _ shape hshape
  · simp only [List.mem_cons, List.not_mem_nil, or_false] at hshape
    rcases hshape with rfl | rfl <;> exact Shape.ignoresEnvironment_of_contextual rfl

theorem paint_ignoresEnvironment : paint.IgnoresEnvironment := by
  intro shape hshape
  rcases List.mem_append.mp hshape with hshape | hshape
  · simp only [List.mem_cons, List.not_mem_nil, or_false] at hshape
    rcases hshape with rfl | rfl | rfl | rfl | rfl <;>
      exact Shape.ignoresEnvironment_of_plain (fun _ _ => rfl) rfl
  · exact casesOf_ignoresEnvironment _ _ shape hshape

theorem font_ignoresEnvironment : font.IgnoresEnvironment := by
  intro shape hshape
  rcases List.mem_append.mp hshape with hshape | hshape
  · simp only [List.mem_cons, List.not_mem_nil, or_false] at hshape
    rcases hshape with rfl | rfl
    · refine fun _ => ⟨fun _ _ => rfl, fun fallback hfallback => ?_⟩
      cases hfallback
      exact fun _ _ => rfl
    · exact Shape.ignoresEnvironment_of_plain (fun _ _ => rfl) rfl
  · exact casesOf_ignoresEnvironment _ _ shape hshape

theorem modifiers_ignoreEnvironment :
    ∀ catalog ∈ modifiers, catalog.IgnoresEnvironment := by
  intro catalog hcatalog shape hshape
  simp only [modifiers, List.mem_cons, List.not_mem_nil, or_false] at hcatalog
  rcases hcatalog with rfl | rfl | rfl | rfl | rfl | rfl | rfl | rfl | rfl <;>
    simp only [frame, padding, offset, single, List.mem_cons, List.not_mem_nil, or_false] at hshape
  · rcases hshape with rfl | rfl <;>
      exact Shape.ignoresEnvironment_of_plain (fun _ _ => rfl) rfl
  · rcases hshape with rfl | rfl <;>
      exact Shape.ignoresEnvironment_of_plain (fun _ _ => rfl) rfl
  all_goals
    subst hshape
    exact Shape.ignoresEnvironment_of_plain (fun _ _ => rfl) rfl

theorem types_ignoreEnvironment : ∀ catalog ∈ types, catalog.IgnoresEnvironment := by
  intro catalog hcatalog
  simp only [types, List.mem_cons, List.not_mem_nil, or_false] at hcatalog
  rcases hcatalog with rfl | rfl | rfl | rfl | rfl | rfl | rfl | rfl
  · exact casesOf_ignoresEnvironment _ _
  · exact casesOf_ignoresEnvironment _ _
  · exact casesOf_ignoresEnvironment _ _
  · exact color_ignoresEnvironment
  · exact paint_ignoresEnvironment
  · exact font_ignoresEnvironment
  · exact casesOf_ignoresEnvironment _ _
  · exact casesOf_ignoresEnvironment _ _

end Vocabulary

namespace Registry

variable {platform : Platform} {name : String} {catalog : Catalog}

/-- The types of the standard vocabulary ignore the environment where they are not contextual. -/
theorem ignoresEnvironment_of_catalog? (h : (standard platform).catalog? name = some catalog) :
    catalog.IgnoresEnvironment := by
  rw [catalog?_standard] at h
  obtain ⟨source, hsource, rfl⟩ := Option.map_eq_some_iff.mp h
  exact (Vocabulary.types_ignoreEnvironment source (mem_of_lastNamed? hsource)).forPlatform platform

/-- So do its modifiers. -/
theorem ignoresEnvironment_of_modifier? (h : (standard platform).modifier? name = some catalog) :
    catalog.IgnoresEnvironment := by
  rw [modifier?_standard] at h
  obtain ⟨source, hsource, rfl⟩ := Option.map_eq_some_iff.mp h
  exact (Vocabulary.modifiers_ignoreEnvironment source (mem_of_lastNamed? hsource)).forPlatform
    platform

end Registry

end DeferredStyle
