import DeferredStyle.Proofs.Finishing
import DeferredStyle.Proofs.Typing

/-!
# Invariants of resolved values

A property of values that no literal breaks, and that every builder keeps, holds of all values that
decoded trees resolve to.  A builder has to keep it only where its gate lets it run, so the property
may speak of the environment.

Throughout, `A` is the property.

* `Builder.Keeps`, `Shape.Keeps`, `Catalog.Keeps`, `Registry.Keeps` — what has to be shown.
* `Decoded.keeps` — the values of decoded trees.
-/

set_option autoImplicit false

namespace DeferredStyle

section Keeps

variable (A : Value → Prop)

/-- The leaf decoders in a rule make only values that `A` holds of. -/
def Rule.Keeps : Rule → Prop
  | .leaf l => ∀ value, l.Makes value → A value
  | .type _ => True
  | .list item => item.Keeps
  | .optional inner => inner.Keeps

/-- From children that `A` holds of, the builder makes only values that `A` holds of. -/
def Builder.Keeps (builder : Builder) : Prop :=
  ∀ args value, (∀ child, .ok child ∈ args.children → A child) →
    builder.build args = .ok value → A value

/-- The builder that the shape uses in an environment keeps `A`. -/
structure Shape.Keeps (environment : Environment) (shape : Shape) : Prop where
  params : ∀ param ∈ shape.params, param.rule.Keeps A
  builder : ∀ label builder,
    selectBuilder label shape.builder shape.fallback shape.availability.runtimeGate environment =
      .ok builder →
    builder.Keeps A

/-- The literals and shapes of the catalog keep `A`. -/
structure Catalog.Keeps (environment : Environment) (catalog : Catalog) : Prop where
  literal : ∀ leaf value, catalog.literal = some leaf → leaf.Makes value → A value
  shapes : ∀ shape ∈ catalog.shapes, shape.Keeps A environment

/-- The types keep `A`, which holds of nil and of lists of values that it holds of. -/
structure Registry.Keeps (environment : Environment) (registry : Registry) : Prop where
  nil : A .nil
  list : ∀ values, (∀ value ∈ values, A value) → A (.list values)
  types : ∀ name catalog, registry.catalog? name = some catalog → catalog.Keeps A environment

/-- What a tree is decoded as keeps `A`. -/
def Expected.Keeps (environment : Environment) : Expected → Prop
  | .rule r => r.Keeps A
  | .catalog c => c.Keeps A environment

end Keeps

variable {A : Value → Prop} {environment : Environment} {registry : Registry}

/-! ## Literals and attributes -/

@[simp] theorem Rule.keeps_type (name : String) : (Rule.type name).Keeps A := trivial

@[simp] theorem Rule.keeps_list {item : Rule} : (Rule.list item).Keeps A ↔ item.Keeps A := .rfl

@[simp] theorem Rule.keeps_optional {inner : Rule} :
    (Rule.optional inner).Keeps A ↔ inner.Keeps A := .rfl

theorem Rule.Keeps.core {rule : Rule} (h : rule.Keeps A) : rule.core.Keeps A := by
  induction rule with
  | optional inner ih => exact ih h
  | leaf leaf => exact h
  | type name => exact h
  | list item => exact h

theorem keeps_of_attributeLeaf? (hregistry : registry.Keeps A environment) {rule : Rule}
    (hrule : rule.Keeps A) {leaf : Leaf} {value : Value}
    (hleaf : attributeLeaf? registry rule = some leaf) (h : leaf.Makes value) : A value := by
  have hcore := hrule.core
  rcases attributeLeaf?_some hleaf with heq | ⟨name, catalog, -, hcatalog, hliteral⟩
  · rw [heq] at hcore
    exact hcore value h
  · exact (hregistry.types name catalog hcatalog).literal leaf value hliteral h

theorem keeps_of_decodeLiteral (hregistry : registry.Keeps A environment) {rule : Rule}
    (hrule : rule.Keeps A) {label : String} {literal : Literal} {value : Value}
    (h : decodeLiteral registry rule label literal = .ok value) : A value := by
  rcases decodeLiteral_ok h with ⟨inner, -, -, rfl⟩ | ⟨leaf, hleaf, hvalue⟩
  · exact hregistry.nil
  · exact keeps_of_attributeLeaf? hregistry hrule hleaf ⟨literal, .inl hvalue⟩

/-- The value of a reference is made by its decoder, or is its default. -/
theorem AttributeBinding.resolve_ok {binding : AttributeBinding} {context : Context} {value : Value}
    (h : binding.resolve context = .ok value) :
    binding.decoder.Makes value ∨ binding.default = some value := by
  unfold resolve at h
  split at h
  · rename_i v hv
    cases h
    unfold decode at hv
    split at hv
    · rename_i literal _
      exact .inl ⟨literal, .inr hv⟩
    · cases hv
  · split at h
    · rename_i v hv
      cases h
      exact .inr hv
    · cases h

/-! ## Lists and shapes -/

theorem mem_of_allOf {children : List (Except ResolveError Value)} {values : List Value}
    (h : Args.allOf children = .ok values) : ∀ value ∈ values, .ok value ∈ children := by
  induction children generalizing values with
  | nil =>
    cases h
    exact nofun
  | cons child children ih =>
    cases child with
    | error e => cases h
    | ok v =>
      obtain ⟨rest, hrest, rfl⟩ := map_eq_ok_iff.mp h
      refine List.forall_mem_cons.mpr ⟨List.mem_cons_self, fun value hvalue => ?_⟩
      exact List.mem_cons_of_mem _ (ih hrest value hvalue)

theorem Shape.Keeps.finishShape {shape : Shape} {context : Context}
    (h : shape.Keeps A context.environment) (folds : Bool) (label : String)
    {children : List Resolvable}
    (hchildren : ∀ child ∈ children, ∀ value, child.resolve context = .ok value → A value)
    {value : Value} (hvalue : (finishShape folds label shape children).resolve context = .ok value) :
    A value := by
  rcases finishShape_eq folds label shape children with ⟨-, v, hfolded, heq⟩ | ⟨-, heq⟩
  · rw [heq] at hvalue
    cases hvalue
    obtain ⟨hgate, -, values, rfl, hbuild⟩ := folded?_eq_some_iff.mp hfolded
    -- without a gate the shape's own builder is the one that is used in any environment
    have hselect : selectBuilder label shape.builder shape.fallback
        shape.availability.runtimeGate context.environment = .ok shape.builder := by
      rw [hgate]
      rfl
    refine h.builder label shape.builder hselect _ value (fun child hchild => ?_) hbuild
    obtain ⟨v, hv, heq⟩ := List.mem_map.mp hchild
    exact hchildren (.constant v) (List.mem_map_of_mem hv) child heq
  · rw [heq, deferShape, Resolvable.resolve_deferred] at hvalue
    split at hvalue
    · cases hvalue
    · rename_i builder hselect
      refine h.builder label builder hselect _ value (fun child hchild => ?_) hvalue
      obtain ⟨r, hr, heq⟩ := List.mem_map.mp hchild
      exact hchildren r hr child heq

/-! ## Trees -/

/-- **Decoded trees resolve to values that the property holds of.** -/
theorem Decoded.keeps {d : Decoder} {context : Context}
    (hregistry : d.registry.Keeps A context.environment) {expected : Expected} {r : Resolvable}
    (h : Decoded d expected r) (hexpected : expected.Keeps A context.environment) {value : Value}
    (hvalue : r.resolve context = .ok value) : A value := by
  induction h generalizing value with
  | literal hliteral =>
    cases hvalue
    exact keeps_of_decodeLiteral hregistry hexpected hliteral
  | reference hleaf hdefault =>
    rcases AttributeBinding.resolve_ok hvalue with hmakes | hvalue
    · exact keeps_of_attributeLeaf? hregistry hexpected hleaf hmakes
    · obtain ⟨label, literal, hliteral⟩ := hdefault value hvalue
      exact keeps_of_decodeLiteral hregistry hexpected hliteral
  | optional _ ih => exact ih hexpected hvalue
  | list _ ih =>
    rw [resolve_finishList] at hvalue
    obtain ⟨values, hvalues, rfl⟩ := map_eq_ok_iff.mp hvalue
    refine hregistry.list values fun v hv => ?_
    obtain ⟨r, hr, heq⟩ := List.mem_map.mp (mem_of_allOf hvalues v hv)
    exact ih r hr hexpected heq
  | node hcatalog _ ih => exact ih (hregistry.types _ _ hcatalog) hvalue
  | shape hshape _ hlength _ ih =>
    have hkeeps := Catalog.Keeps.shapes hexpected _ hshape
    refine hkeeps.finishShape _ _ (fun child hchild v hv => ?_) hvalue
    obtain ⟨param, hparam, hih⟩ := exists_left_of_forall₂
      (List.forall₂_iff_zip.mpr ⟨hlength, fun hmem => ih _ _ hmem⟩) hchild
    exact hih (hkeeps.params param hparam) hv
  | case hcase _ =>
    refine (Catalog.Keeps.shapes hexpected _ hcase).finishShape _ _ (fun child hchild => ?_) hvalue
    cases hchild

end DeferredStyle
