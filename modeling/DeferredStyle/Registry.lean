import DeferredStyle.Catalog.Catalog

/-!
# Registries

The catalogs of types by type name, and the catalogs of modifiers by modifier name.  A catalog is
reduced to the registry's platform when it is registered.

* `Registry.register`, `Registry.registerModifier` — a later catalog replaces an earlier one of the
  same name and kind.
-/

set_option autoImplicit false

namespace DeferredStyle

/-- Catalogs by name. -/
structure Registry where
  platform : Platform
  types : Table Catalog
  modifiers : Table Catalog

namespace Registry

/-- The registry without catalogs. -/
def empty (platform : Platform) : Registry := ⟨platform, .empty, .empty⟩

/-- Register the catalog of a type. -/
def register (registry : Registry) (catalog : Catalog) : Registry :=
  { registry with
    types := registry.types.insert catalog.typeName (catalog.forPlatform registry.platform) }

/-- Register the catalog of a modifier. -/
def registerModifier (registry : Registry) (catalog : Catalog) : Registry :=
  { registry with
    modifiers :=
      registry.modifiers.insert catalog.typeName (catalog.forPlatform registry.platform) }

/-- Register catalogs of types in order. -/
def registerAll (registry : Registry) (catalogs : List Catalog) : Registry :=
  catalogs.foldl register registry

/-- Register catalogs of modifiers in order. -/
def registerAllModifiers (registry : Registry) (catalogs : List Catalog) : Registry :=
  catalogs.foldl registerModifier registry

/-- The catalog of a type. -/
def catalog? (registry : Registry) (typeName : String) : Option Catalog :=
  registry.types.find? typeName

/-- The catalog of a modifier. -/
def modifier? (registry : Registry) (name : String) : Option Catalog :=
  registry.modifiers.find? name

end Registry

end DeferredStyle
