import DeferredStyle.Vocabulary.Cases

/-!
# Lengths, alignments and edges
-/

set_option autoImplicit false

namespace DeferredStyle.Vocabulary

/-- The lengths with a name. -/
def lengthNames : List (String × Float) := [("infinity", 1.0 / 0.0)]

/-- Lengths in points; a bare number is a length. -/
def length : Catalog := ⟨"Length", some .float, casesOf .float lengthNames⟩

/-- Alignments. -/
def alignment : Catalog := namedCatalog "Alignment" .alignment Alignment.names

/-- Choices of edges. -/
def edgeSet : Catalog := namedCatalog "EdgeSet" .edgeSet EdgeSet.names

end DeferredStyle.Vocabulary
