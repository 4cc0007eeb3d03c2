import DeferredStyle.Proofs.Finishing
import DeferredStyle.Proofs.Inventory
import DeferredStyle.Proofs.Provenance

/-!
# What trees of the standard vocabulary consist of

Whatever node is decoded against a standard registry, and on whatever platform, the deferred parts
of the tree are shapes of the vocabulary or lists, and its references are decoded by one of a few
leaf decoders.  A shape that folds without children never stays deferred.

* `Vocabulary.shapes`, `Vocabulary.leaves` — all shapes with the names of their catalogs, and all
  leaf decoders of references.
* `Shape.stays` — the shapes that may stay deferred.
* `Vocabulary.Tree` — the trees that consist of these; `Vocabulary.tree_of_decodeNode` — so do all
  decoded trees.
-/

set_option autoImplicit false

namespace DeferredStyle

namespace Vocabulary

/-- Every shape of the vocabulary, with the name of its catalog. -/
def shapes : List (String × Shape) :=
  (types ++ modifiers).flatMap fun catalog => catalog.shapes.map fun shape =>
    (catalog.typeName, shape)

/-- The leaf decoders of the vocabulary: those of bare literals of a type, and hexadecimal texts. -/
def leaves : List Leaf :=
  hexLeaf :: types.filterMap Catalog.literal

end Vocabulary

/-- Whether the shape may stay deferred: it has parameters, a gate, or reads the environment. -/
def Shape.stays (shape : Shape) : Bool :=
  !shape.params.isEmpty || shape.availability.runtimeGate.isSome || shape.contextual

/-- All leaf decoders in the rule are of the vocabulary. -/
def Rule.OfVocabulary : Rule → Prop
  | .leaf l => l ∈ Vocabulary.leaves
  | .type _ => True
  | .list item => item.OfVocabulary
  | .optional inner => inner.OfVocabulary

namespace Vocabulary

variable {typeName : String} {shape : Shape}

theorem mem_shapes {catalog : Catalog} (hcatalog : catalog ∈ types ∨ catalog ∈ modifiers)
    (hshape : shape ∈ catalog.shapes) : (catalog.typeName, shape) ∈ shapes :=
  List.mem_flatMap.mpr ⟨catalog, List.mem_append.mpr hcatalog, List.mem_map_of_mem hshape⟩

theorem hasShape_of_mem_shapes (h : (typeName, shape) ∈ shapes) : HasShape typeName shape := by
  obtain ⟨catalog, hcatalog, hmem⟩ := List.mem_flatMap.mp h
  obtain ⟨_, hshape, heq⟩ := List.mem_map.mp hmem
  obtain ⟨rfl, rfl⟩ := Prod.mk.inj heq
  rcases List.mem_append.mp hcatalog with hcatalog | hcatalog
  · exact hasShape_of_mem_types catalog hcatalog _ hshape
  · exact hasShape_of_mem_modifiers catalog hcatalog _ hshape

theorem float_mem_leaves : Leaf.float ∈ leaves := by
  simp [leaves, types, length]

theorem hexLeaf_mem_leaves : hexLeaf ∈ leaves :=
  List.mem_cons_self

theorem HasShape.rules_ofVocabulary (h : HasShape typeName shape) :
    ∀ param ∈ shape.params, param.rule.OfVocabulary := by
  cases h with
  | named | schemeColor | windowBackground => exact List.forall_mem_nil _
  | _ =>
    simp [Shape.plain, Shape.initializer, Shape.method, Shape.enumCase, Shape.staticFunction,
      Shape.available, Shape.withFallback, Param.positional, Param.labeled, Param.withDefault,
      optionalParam, optionalLength, alignmentParam, lengthRule, Rule.OfVocabulary,
      float_mem_leaves, hexLeaf_mem_leaves]

/-- A shape of the vocabulary that does not stay makes a value of nothing. -/
theorem HasShape.exists_value (h : HasShape typeName shape) (hstays : shape.stays = false)
    (label : String) : ∃ value, shape.builder.build (foldingArgs label []) = .ok value := by
  cases h with
  | named name _ => exact ⟨_, rfl⟩
  | _ => cases hstays

/-! ## Trees -/

/-- The trees that consist of shapes of the vocabulary, lists, references and constants.  A decoder
that folds leaves no shape deferred without a reason. -/
inductive Tree (folds : Bool) : Resolvable → Prop
  | constant (value : Value) : Tree folds (.constant value)
  | bound {binding : AttributeBinding} (h : binding.decoder ∈ leaves) : Tree folds (.bound binding)
  | list {item : Rule} {items : List Resolvable} (hitems : ∀ r ∈ items, Tree folds r) :
      Tree folds (.deferred ⟨(Rule.list item).text, .list, none, none, items⟩)
  | shape {typeName : String} {shape : Shape} {children : List Resolvable}
      (hshape : (typeName, shape) ∈ shapes) (hstays : folds = true → shape.stays = true)
      (hchildren : ∀ r ∈ children, Tree folds r) :
      Tree folds (deferShape (shape.label typeName) shape children)

theorem Tree.of_child {folds : Bool} {deferred : Deferred Resolvable}
    (h : Tree folds (.deferred deferred)) : ∀ child ∈ deferred.children, Tree folds child := by
  generalize hr : Resolvable.deferred deferred = r at h
  cases h with
  | constant | bound => cases hr
  | list hitems =>
    cases hr
    exact hitems
  | shape _ _ hchildren =>
    cases hr
    exact hchildren

/-- A deferred tree is a list, or a shape of the vocabulary that stays. -/
theorem Tree.list_or_shape {folds : Bool} {deferred : Deferred Resolvable}
    (h : Tree folds (.deferred deferred)) :
    (∃ item children, deferred = ⟨(Rule.list item).text, .list, none, none, children⟩) ∨
      ∃ typeName shape children, (typeName, shape) ∈ shapes ∧
        (folds = true → shape.stays = true) ∧
        deferred = ⟨shape.label typeName, shape.builder, shape.fallback,
          shape.availability.runtimeGate, children⟩ := by
  generalize hr : Resolvable.deferred deferred = r at h
  cases h with
  | constant | bound => cases hr
  | list hitems =>
    cases hr
    exact .inl ⟨_, _, rfl⟩
  | shape hshape hstays _ =>
    cases hr
    exact .inr ⟨_, _, _, hshape, hstays, rfl⟩

theorem tree_finishShape {folds : Bool} (hshape : (typeName, shape) ∈ shapes)
    {children : List Resolvable} (hlength : shape.params.length = children.length)
    (hchildren : ∀ r ∈ children, Tree folds r) :
    Tree folds (finishShape folds (shape.label typeName) shape children) := by
  rcases finishShape_eq folds (shape.label typeName) shape children with
    ⟨-, value, -, heq⟩ | ⟨hfolded, heq⟩
  · rw [heq]
    exact .constant value
  · rw [heq]
    refine .shape hshape (fun hfolds => ?_) hchildren
    -- a shape without a reason to stay would have been folded
    by_contra hstays
    rw [Bool.not_eq_true] at hstays
    obtain ⟨value, hvalue⟩ := (hasShape_of_mem_shapes hshape).exists_value hstays
      (shape.label typeName)
    simp only [Shape.stays, Bool.or_eq_false_iff, Bool.not_eq_false', List.isEmpty_iff,
      Option.isSome_eq_false_iff, Option.isNone_iff_eq_none] at hstays
    obtain ⟨⟨hparams, hgate⟩, hcontextual⟩ := hstays
    rw [hparams] at hlength
    have hnil : children = [] := List.length_eq_zero_iff.mp hlength.symm
    have hsome := folded?_eq_some_iff.mpr ⟨hgate, hcontextual, [], hnil, hvalue⟩
    rw [hfolded hfolds] at hsome
    cases hsome

theorem tree_finishList {folds : Bool} {item : Rule} {items : List Resolvable}
    (hitems : ∀ r ∈ items, Tree folds r) : Tree folds (finishList folds (.list item) items) := by
  rcases finishList_eq folds (.list item) items with ⟨-, values, -, heq⟩ | ⟨-, heq⟩
  · rw [heq]
    exact .constant _
  · rw [heq]
    exact .list hitems

end Vocabulary

/-! ## Decoded trees -/

open Vocabulary

/-- A rule of the vocabulary, or a registered catalog. -/
def Expected.OfVocabulary (registry : Registry) : Expected → Prop
  | .rule r => r.OfVocabulary
  | .catalog c => registry.Registers c

namespace Registry

variable {platform : Platform}

theorem mem_shapes_of_registers {catalog : Catalog} (h : (standard platform).Registers catalog)
    {shape : Shape} (hshape : shape ∈ catalog.shapes) : (catalog.typeName, shape) ∈ shapes := by
  obtain ⟨source, hsource, rfl⟩ := exists_of_registers h
  show (source.typeName, shape) ∈ shapes
  exact mem_shapes hsource (List.mem_filter.mp hshape).1

theorem mem_leaves_of_attributeLeaf? {rule : Rule} (hrule : rule.OfVocabulary) {leaf : Leaf}
    (h : attributeLeaf? (standard platform) rule = some leaf) : leaf ∈ leaves := by
  have hcore : rule.core.OfVocabulary := by
    induction rule with
    | optional inner ih => exact ih hrule h
    | leaf l => exact hrule
    | type name => exact hrule
    | list item => exact hrule
  unfold attributeLeaf? at h
  split at h
  · rename_i heq
    cases h
    rw [heq] at hcore
    exact hcore
  · rw [catalog?_standard] at h
    obtain ⟨catalog, hcatalog, hliteral⟩ := Option.bind_eq_some_iff.mp h
    obtain ⟨source, hsource, rfl⟩ := Option.map_eq_some_iff.mp hcatalog
    exact List.mem_cons_of_mem _
      (List.mem_filterMap.mpr ⟨source, mem_of_lastNamed? hsource, hliteral⟩)
  · cases h

end Registry

namespace Vocabulary

variable {d : Decoder} {platform : Platform}

theorem tree_of_decoded (hstandard : d.registry = .standard platform) {expected : Expected}
    {r : Resolvable} (h : Decoded d expected r) (hexpected : expected.OfVocabulary d.registry) :
    Tree d.folds r := by
  induction h with
  | literal _ => exact .constant _
  | reference hleaf _ =>
    rw [hstandard] at hleaf
    exact .bound (Registry.mem_leaves_of_attributeLeaf? hexpected hleaf)
  | optional _ ih => exact ih hexpected
  | list _ ih => exact tree_finishList fun r hr => ih r hr hexpected
  | node hcatalog _ ih => exact ih (.inl ⟨_, hcatalog⟩)
  | shape hshape _ hlength _ ih =>
    rw [Expected.OfVocabulary, hstandard] at hexpected
    have hmem := Registry.mem_shapes_of_registers hexpected hshape
    refine tree_finishShape hmem hlength fun child hchild => ?_
    obtain ⟨index, hindex, rfl⟩ := List.getElem_of_mem hchild
    have hparam : index < _ := hlength ▸ hindex
    refine ih _ _ (List.mem_iff_getElem.mpr ⟨index, ?_, List.getElem_zip⟩)
      ((hasShape_of_mem_shapes hmem).rules_ofVocabulary _ (List.getElem_mem hparam))
    simpa [hlength] using hindex
  | case hcase hparams =>
    rw [Expected.OfVocabulary, hstandard] at hexpected
    have hmem := Registry.mem_shapes_of_registers hexpected hcase
    refine tree_finishShape hmem ?_ (List.forall_mem_nil _)
    rw [(hasShape_of_mem_shapes hmem).params_of_isBareCase hparams]
    rfl

/-- **Every tree that is decoded by a standard registry consists of the vocabulary.** -/
theorem tree_of_decodeNode {folds : Bool} {node : Node} {r : Resolvable}
    (h : (∃ typeName, (⟨.standard platform, folds⟩ : Decoder).decodeType node typeName = .ok r) ∨
      (⟨.standard platform, folds⟩ : Decoder).decodeModifier node = .ok r) :
    Tree folds r := by
  have hstandard : (Decoder.mk (.standard platform) folds).registry = .standard platform := rfl
  rcases h with ⟨typeName, h⟩ | h
  · obtain ⟨catalog, hcatalog, hdecode⟩ := Decoder.decodeType_ok h
    exact tree_of_decoded hstandard (decoded_of_decode hdecode) (.inl ⟨typeName, hcatalog⟩)
  · obtain ⟨catalog, hcatalog, hdecode⟩ := Decoder.decodeModifier_ok h
    exact tree_of_decoded hstandard (decoded_of_decode hdecode) (.inr ⟨node.tag, hcatalog⟩)

end Vocabulary

end DeferredStyle
