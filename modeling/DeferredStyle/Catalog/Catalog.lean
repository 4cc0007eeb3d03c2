import DeferredStyle.Catalog.Shape

/-!
# Catalogs

The shapes of one type, in the order in which they are tried.

* `Catalog.candidates` — a selector narrows the shapes to those it picks.
* `Catalog.forPlatform` — the shapes that exist on a platform.
-/

set_option autoImplicit false

namespace DeferredStyle

/-- The shapes of a type. -/
structure Catalog where
  typeName : String
  /-- How a bare literal or an attribute is decoded as the type. -/
  literal : Option Leaf
  shapes : List Shape

namespace Catalog

/-- The shapes that a selector leaves.  The type's own name, and a selector that picks no shape,
leave them all. -/
def candidates (catalog : Catalog) (selector : Option String) : List Shape :=
  match selector with
  | none => catalog.shapes
  | some selector =>
    if selector = catalog.typeName then catalog.shapes
    else
      match catalog.shapes.filter (·.isKeyedBy selector) with
      | [] => catalog.shapes
      | keyed => keyed

/-- The catalog with only the shapes that exist on a platform. -/
def forPlatform (catalog : Catalog) (platform : Platform) : Catalog :=
  { catalog with shapes := catalog.shapes.filter (·.availability.isAvailableOn platform) }

/-- What is reported when shapes do not exist on a platform. -/
def filterEvents (catalog : Catalog) (platform : Platform) : List Event :=
  let dropped := catalog.shapes.length - (catalog.forPlatform platform).shapes.length
  if dropped = 0 then [] else [.filteredShapes dropped platform]

end Catalog

end DeferredStyle
