import DeferredStyle.Registry
import DeferredStyle.Vocabulary.Layout
import DeferredStyle.Vocabulary.Modifiers
import DeferredStyle.Vocabulary.Paint

/-!
# The standard vocabulary

The types and modifiers that every style may use.
-/

set_option autoImplicit false

namespace DeferredStyle

/-- The catalogs of all types. -/
def Vocabulary.types : List Catalog :=
  [Vocabulary.length, Vocabulary.alignment, Vocabulary.edgeSet, Vocabulary.color,
    Vocabulary.paint, Vocabulary.font, Vocabulary.fontWeight, Vocabulary.fontDesign]

namespace Registry

/-- The standard vocabulary on a platform. -/
def standard (platform : Platform) : Registry :=
  ((empty platform).registerAll Vocabulary.types).registerAllModifiers Vocabulary.modifiers

/-- What is reported while the standard vocabulary is registered. -/
def standardEvents (platform : Platform) : List Event :=
  (Vocabulary.types ++ Vocabulary.modifiers).flatMap (·.filterEvents platform) ++
    [.loadedVocabulary (standard platform).types.size (standard platform).modifiers.size platform]

end Registry

end DeferredStyle
