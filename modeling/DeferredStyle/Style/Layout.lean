import DeferredStyle.Json.Value

/-!
# Alignments and edges
-/

set_option autoImplicit false

namespace DeferredStyle

/-- Where content is placed in a frame. -/
inductive Alignment where
  | center
  | leading
  | trailing
  | top
  | bottom
  | topLeading
  | topTrailing
  | bottomLeading
  | bottomTrailing
  deriving DecidableEq

namespace Alignment

/-- The alignments by name. -/
def names : List (String × Alignment) :=
  [("center", center), ("leading", leading), ("trailing", trailing), ("top", top),
    ("bottom", bottom), ("topLeading", topLeading), ("topTrailing", topTrailing),
    ("bottomLeading", bottomLeading), ("bottomTrailing", bottomTrailing)]

/-- The name of an alignment. -/
def name : Alignment → String
  | center => "center"
  | leading => "leading"
  | trailing => "trailing"
  | top => "top"
  | bottom => "bottom"
  | topLeading => "topLeading"
  | topTrailing => "topTrailing"
  | bottomLeading => "bottomLeading"
  | bottomTrailing => "bottomTrailing"

end Alignment

/-- A choice among the four edges of a frame. -/
structure EdgeSet where
  top : Bool
  leading : Bool
  bottom : Bool
  trailing : Bool
  deriving DecidableEq

namespace EdgeSet

/-- All four edges. -/
def all : EdgeSet := ⟨true, true, true, true⟩

/-- The choices of edges with a name. -/
def names : List (String × EdgeSet) :=
  [("all", all),
    ("horizontal", ⟨false, true, false, true⟩),
    ("vertical", ⟨true, false, true, false⟩),
    ("top", ⟨true, false, false, false⟩),
    ("leading", ⟨false, true, false, false⟩),
    ("bottom", ⟨false, false, true, false⟩),
    ("trailing", ⟨false, false, false, true⟩)]

/-- The JSON value of a choice of edges. -/
def toJson (edges : EdgeSet) : Json :=
  .object [("top", .bool edges.top), ("leading", .bool edges.leading),
    ("bottom", .bool edges.bottom), ("trailing", .bool edges.trailing)]

end EdgeSet

end DeferredStyle
