import DeferredStyle.Proofs.Recursion

/-!
# Finished shapes and lists

What the decoder makes of a shape whose children are decoded, and of a list whose items are.

* `folded?_eq_some_iff` — when a shape is folded, and to what.
* `finishShape_eq`, `finishList_eq` — a finished shape or list is a constant or deferred.
* `resolve_finishList` — the result of a list does not depend on which.
-/

set_option autoImplicit false

namespace DeferredStyle

/-! ## Shapes and lists -/

/-- When a shape is folded, and to what. -/
theorem folded?_eq_some_iff {label : String} {shape : Shape} {children : List Resolvable}
    {value : Value} :
    folded? label shape children = some value ↔
      shape.availability.runtimeGate = none ∧ shape.contextual = false ∧
        ∃ values, children = values.map .constant ∧
          shape.builder.build (foldingArgs label values) = .ok value := by
  unfold folded?
  split
  · rename_i hopen
    simp only [Bool.or_eq_true, Option.isSome_iff_ne_none] at hopen
    simp only [reduceCtorEq, false_iff, not_and]
    intro hgate hcontextual
    rcases hopen with h | h
    · exact absurd hgate h
    · rw [hcontextual] at h
      cases h
  · rename_i hopen
    simp only [Bool.not_eq_true, Bool.or_eq_false_iff, Option.isSome_eq_false_iff,
      Option.isNone_iff_eq_none] at hopen
    simp only [hopen, true_and, ← Resolvable.constants?_eq_some_iff]
    cases Resolvable.constants? children with
    | none => simp
    | some values =>
      cases hbuild : shape.builder.build (foldingArgs label values) <;>
        simp [hbuild, Except.toOption]

/-- A shape is folded to a constant or deferred. -/
theorem finishShape_eq (folds : Bool) (label : String) (shape : Shape)
    (children : List Resolvable) :
    (folds = true ∧ ∃ value, folded? label shape children = some value ∧
      finishShape folds label shape children = .constant value) ∨
    ((folds = true → folded? label shape children = none) ∧
      finishShape folds label shape children = deferShape label shape children) := by
  unfold finishShape
  cases folds with
  | false => exact .inr ⟨by simp, rfl⟩
  | true =>
    cases hfolded : folded? label shape children with
    | none => exact .inr ⟨fun _ => rfl, rfl⟩
    | some value => exact .inl ⟨rfl, value, rfl, rfl⟩

/-- A list is folded to a constant or deferred. -/
theorem finishList_eq (folds : Bool) (rule : Rule) (items : List Resolvable) :
    (folds = true ∧ ∃ values, items = values.map .constant ∧
      finishList folds rule items = .constant (.list values)) ∨
    ((folds = true → ∀ values : List Value, items ≠ values.map .constant) ∧
      finishList folds rule items = .deferred ⟨rule.text, .list, none, none, items⟩) := by
  unfold finishList
  cases folds with
  | false => exact .inr ⟨by simp, rfl⟩
  | true =>
    cases hvalues : Resolvable.constants? items with
    | none =>
      refine .inr ⟨fun _ values h => ?_, rfl⟩
      rw [h, Resolvable.constants?_map] at hvalues
      cases hvalues
    | some values => exact .inl ⟨rfl, values, Resolvable.eq_map_of_constants? hvalues, rfl⟩

/-! ## Results -/

theorem allOf_map_ok (values : List Value) : Args.allOf (values.map .ok) = .ok values := by
  induction values with
  | nil => rfl
  | cons value values ih =>
    rw [List.map_cons, Args.allOf, ih]
    rfl

theorem map_resolve_constants (context : Context) (values : List Value) :
    (values.map Resolvable.constant).map (Resolvable.resolve context) = values.map .ok := by
  rw [List.map_map]
  rfl

/-- A list has the same result whether it is folded or not. -/
theorem resolve_finishList (folds : Bool) (rule : Rule) (items : List Resolvable)
    (context : Context) :
    (finishList folds rule items).resolve context =
      (Args.allOf (items.map (Resolvable.resolve context))).map .list := by
  rcases finishList_eq folds rule items with ⟨-, values, rfl, heq⟩ | ⟨-, heq⟩
  · rw [heq, map_resolve_constants, allOf_map_ok]
    rfl
  · rw [heq, Resolvable.resolve_deferred]
    rfl

end DeferredStyle
