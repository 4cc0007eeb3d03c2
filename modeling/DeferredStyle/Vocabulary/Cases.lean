import DeferredStyle.Catalog.Catalog

/-!
# Types whose values have names

* `casesOf` — the cases of a catalog, by a table of names.
* `leafOf` — the decoder of the bare literals that hold a name of a table.
* `namedCatalog` — both, by one table.  Colors have one table for their cases and another for their
  literals.
-/

set_option autoImplicit false

namespace DeferredStyle.Vocabulary

variable {α : Type}

/-- One case without parameters for each entry of a table, in order. -/
def casesOf (wrap : α → Value) (names : List (String × α)) : List Shape :=
  names.map fun (name, a) => .bareCase name (.constant (wrap a))

/-- The value with a name. -/
def valueNamed? (wrap : α → Value) (names : List (String × α)) (name : String) : Option Value :=
  (Table.lookup? name names).map wrap

/-- The decoder of literals that hold a name. -/
def leafOf (typeName : String) (wrap : α → Value) (names : List (String × α)) : Leaf :=
  .named typeName (valueNamed? wrap names)

/-- The catalog of a type that has nothing but named values. -/
def namedCatalog (typeName : String) (wrap : α → Value) (names : List (String × α)) : Catalog :=
  ⟨typeName, some (leafOf typeName wrap names), casesOf wrap names⟩

end DeferredStyle.Vocabulary
