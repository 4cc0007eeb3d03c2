import DeferredStyle.Vocabulary.Standard

/-!
# What registrations leave

Of several catalogs with one name, a registry holds the last, reduced to the registry's platform.
Types and modifiers do not see each other.

* `lastNamed?` — the last catalog with a name.
* `Registry.catalog?_registerAll`, `Registry.modifier?_registerAllModifiers` — look-ups after
  several registrations.
* `Registry.catalog?_standard`, `Registry.modifier?_standard` — look-ups in the standard vocabulary.
-/

set_option autoImplicit false

namespace DeferredStyle

/-- The last catalog with a name. -/
def lastNamed? (name : String) (catalogs : List Catalog) : Option Catalog :=
  catalogs.reverse.find? fun catalog => catalog.typeName == name

theorem lastNamed?_cons (name : String) (catalog : Catalog) (catalogs : List Catalog) :
    lastNamed? name (catalog :: catalogs) =
      (lastNamed? name catalogs).or (if catalog.typeName = name then some catalog else none) := by
  by_cases h : catalog.typeName = name <;> simp [lastNamed?, h]

theorem mem_of_lastNamed? {name : String} {catalogs : List Catalog} {catalog : Catalog}
    (h : lastNamed? name catalogs = some catalog) : catalog ∈ catalogs :=
  List.mem_reverse.mp (List.mem_of_find?_eq_some h)

theorem typeName_of_lastNamed? {name : String} {catalogs : List Catalog} {catalog : Catalog}
    (h : lastNamed? name catalogs = some catalog) : catalog.typeName = name := by
  simpa using List.find?_some h

/-- A catalog that comes first counts only where none comes after it. -/
theorem map_lastNamed?_or (name : String) (f : Catalog → Catalog) (catalog : Catalog)
    (catalogs : List Catalog) (old : Option Catalog) :
    ((lastNamed? name catalogs).map f).or
        (if name = catalog.typeName then some (f catalog) else old) =
      ((lastNamed? name (catalog :: catalogs)).map f).or old := by
  rw [lastNamed?_cons]
  by_cases hname : catalog.typeName = name
  · cases lastNamed? name catalogs <;> simp [hname]
  · cases lastNamed? name catalogs <;> simp [hname, Ne.symm hname]

namespace Registry

/-! ## One registration -/

variable (registry : Registry) (catalog : Catalog) (name : String)

@[simp] theorem platform_register : (registry.register catalog).platform = registry.platform := rfl

@[simp] theorem platform_registerModifier :
    (registry.registerModifier catalog).platform = registry.platform := rfl

theorem catalog?_register :
    (registry.register catalog).catalog? name =
      if name = catalog.typeName then some (catalog.forPlatform registry.platform)
      else registry.catalog? name :=
  Table.find?_insert registry.types catalog.typeName name _

theorem modifier?_registerModifier :
    (registry.registerModifier catalog).modifier? name =
      if name = catalog.typeName then some (catalog.forPlatform registry.platform)
      else registry.modifier? name :=
  Table.find?_insert registry.modifiers catalog.typeName name _

/-! ## Several registrations -/

variable (catalogs : List Catalog)

theorem platform_registerAll : (registry.registerAll catalogs).platform = registry.platform := by
  induction catalogs generalizing registry with
  | nil => rfl
  | cons catalog catalogs ih => exact ih (registry.register catalog)

/-- **A registry holds the last catalog of each type.** -/
theorem catalog?_registerAll :
    (registry.registerAll catalogs).catalog? name =
      ((lastNamed? name catalogs).map (·.forPlatform registry.platform)).or
        (registry.catalog? name) := by
  induction catalogs generalizing registry with
  | nil => rfl
  | cons catalog catalogs ih =>
    have hstep := ih (registry.register catalog)
    rw [catalog?_register, platform_register, map_lastNamed?_or] at hstep
    exact hstep

/-- **A registry holds the last catalog of each modifier.** -/
theorem modifier?_registerAllModifiers :
    (registry.registerAllModifiers catalogs).modifier? name =
      ((lastNamed? name catalogs).map (·.forPlatform registry.platform)).or
        (registry.modifier? name) := by
  induction catalogs generalizing registry with
  | nil => rfl
  | cons catalog catalogs ih =>
    have hstep := ih (registry.registerModifier catalog)
    rw [modifier?_registerModifier, platform_registerModifier, map_lastNamed?_or] at hstep
    exact hstep

theorem modifier?_registerAll :
    (registry.registerAll catalogs).modifier? name = registry.modifier? name := by
  induction catalogs generalizing registry with
  | nil => rfl
  | cons catalog catalogs ih => exact ih (registry.register catalog)

theorem catalog?_registerAllModifiers :
    (registry.registerAllModifiers catalogs).catalog? name = registry.catalog? name := by
  induction catalogs generalizing registry with
  | nil => rfl
  | cons catalog catalogs ih => exact ih (registry.registerModifier catalog)

/-! ## The standard vocabulary -/

variable (platform : Platform)

theorem catalog?_standard :
    (standard platform).catalog? name =
      (lastNamed? name Vocabulary.types).map (·.forPlatform platform) := by
  rw [standard, catalog?_registerAllModifiers, catalog?_registerAll]
  exact Option.or_none

theorem modifier?_standard :
    (standard platform).modifier? name =
      (lastNamed? name Vocabulary.modifiers).map (·.forPlatform platform) := by
  rw [standard, modifier?_registerAllModifiers, modifier?_registerAll, platform_registerAll]
  exact Option.or_none

end Registry

end DeferredStyle
