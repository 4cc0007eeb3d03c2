import DeferredStyle.Proofs.Finishing
import DeferredStyle.Proofs.Provenance

/-!
# Typed values

A rule says which values an argument may have, once it is said which values each type has.  Builders
look at untyped arguments by position; a builder is sound if, on arguments that fit the parameters
of its shape, it makes a value of its type or fails in a foreseen way.  Trees decoded in a registry
of sound catalogs then have a value of their type or fail in a foreseen way, in every context.

Throughout, `typed` holds of a type's name and its values, and `E` of the foreseen errors.

* `Rule.Holds` — the values of a rule.
* `Builder.Sound`, `Shape.Sound`, `Catalog.Sound`, `Registry.Sound` — soundness.
* `Decoded.meets` — the results of decoded trees.
-/

set_option autoImplicit false

namespace DeferredStyle

/-- The values that a leaf decoder makes of literals, in documents or attributes. -/
def Leaf.Makes (leaf : Leaf) (value : Value) : Prop :=
  ∃ literal, leaf.decodeLiteral literal = .ok value ∨ leaf.decodeAttribute literal = .ok value

/-- The values of a rule. -/
inductive Rule.Holds (typed : String → Value → Prop) : Rule → Value → Prop
  | leaf {leaf : Leaf} {value : Value} (h : leaf.Makes value) : Holds typed (.leaf leaf) value
  | type {name : String} {value : Value} (h : typed name value) : Holds typed (.type name) value
  | list {item : Rule} {values : List Value} (h : ∀ value ∈ values, Holds typed item value) :
      Holds typed (.list item) (.list values)
  | nil {inner : Rule} : Holds typed (.optional inner) .nil
  | optional {inner : Rule} {value : Value} (h : Holds typed inner value) :
      Holds typed (.optional inner) value

section Soundness

variable (typed : String → Value → Prop) (E : ResolveError → Prop)

/-- The children of a shape, one for each parameter, are values of the parameters' rules or foreseen
errors. -/
def Fits (params : List Param) (children : List (Except ResolveError Value)) : Prop :=
  List.Forall₂ (fun param child => Meets E (param.rule.Holds typed) child) params children

/-- On children that fit, the builder makes a value that `P` holds of or fails as foreseen. -/
def Builder.Sound (P : Value → Prop) (params : List Param) (label : String) (builder : Builder) :
    Prop :=
  ∀ children environment, Fits typed E params children →
    Meets E P (builder.build ⟨label, children, environment⟩)

/-- Both builders are sound, and a gate without a fallback fails as foreseen. -/
structure Shape.Sound (P : Value → Prop) (typeName : String) (shape : Shape) : Prop where
  cases : shape.isBareCase = true → shape.params = []
  builder : shape.builder.Sound typed E P shape.params (shape.label typeName)
  fallback : ∀ fallback, shape.fallback = some fallback →
    fallback.Sound typed E P shape.params (shape.label typeName)
  gate : shape.availability.runtimeGate ≠ none → shape.fallback = none →
    ∀ platform required actual,
      E (.unsupportedOnRuntime (shape.label typeName) platform required actual)

/-- The literals and shapes of the catalog make values that `P` holds of. -/
structure Catalog.Sound (P : Value → Prop) (catalog : Catalog) : Prop where
  literal : ∀ leaf value, catalog.literal = some leaf → leaf.Makes value → P value
  shapes : ∀ shape ∈ catalog.shapes, shape.Sound typed E P catalog.typeName

/-- Every type's catalog makes values of the type, and missing attributes are foreseen. -/
structure Registry.Sound (registry : Registry) : Prop where
  types : ∀ name catalog, registry.catalog? name = some catalog →
    catalog.Sound typed E (typed name)
  missing : ∀ name reason, E (.missingOrInvalidAttribute name reason)

end Soundness

variable {typed : String → Value → Prop} {E : ResolveError → Prop} {registry : Registry}

/-! ## Literals and attributes -/

theorem Rule.Holds.of_core {rule : Rule} {value : Value} (h : rule.core.Holds typed value) :
    rule.Holds typed value := by
  induction rule with
  | optional inner ih => exact .optional (ih h)
  | leaf leaf => exact h
  | type name => exact h
  | list item => exact h

/-- What the attribute decoder of a rule makes is a value of the rule. -/
theorem holds_of_attributeLeaf? (hregistry : registry.Sound typed E) {rule : Rule} {leaf : Leaf}
    {value : Value} (hleaf : attributeLeaf? registry rule = some leaf) (h : leaf.Makes value) :
    rule.Holds typed value := by
  refine .of_core ?_
  rcases attributeLeaf?_some hleaf with hcore | ⟨name, catalog, hcore, hcatalog, hliteral⟩
  · rw [hcore]
    exact .leaf h
  · rw [hcore]
    exact .type ((hregistry.types name catalog hcatalog).literal leaf value hliteral h)

/-- A literal is decoded to a value of the rule. -/
theorem holds_of_decodeLiteral (hregistry : registry.Sound typed E) {rule : Rule} {label : String}
    {literal : Literal} {value : Value}
    (h : decodeLiteral registry rule label literal = .ok value) : rule.Holds typed value := by
  rcases decodeLiteral_ok h with ⟨inner, rfl, -, rfl⟩ | ⟨leaf, hleaf, hvalue⟩
  · exact .nil
  · exact holds_of_attributeLeaf? hregistry hleaf ⟨literal, .inl hvalue⟩

theorem meets_bound (hregistry : registry.Sound typed E) {rule : Rule} {name : String} {leaf : Leaf}
    {default : Option Value} (hleaf : attributeLeaf? registry rule = some leaf)
    (hdefault : ∀ value, default = some value → rule.Holds typed value) (context : Context) :
    Meets E (rule.Holds typed) ((Resolvable.bound ⟨name, leaf, default⟩).resolve context) := by
  rw [Resolvable.resolve, AttributeBinding.resolve]
  split
  · rename_i value hvalue
    unfold AttributeBinding.decode at hvalue
    split at hvalue
    · rename_i literal _
      exact .ok (holds_of_attributeLeaf? hregistry hleaf ⟨literal, .inr hvalue⟩)
    · cases hvalue
  · split
    · rename_i value hvalue
      exact .ok (hdefault value hvalue)
    · exact .error (hregistry.missing _ _)

/-! ## Lists and shapes -/

theorem meets_allOf {P : Value → Prop} {children : List (Except ResolveError Value)}
    (h : ∀ child ∈ children, Meets E P child) :
    Meets E (fun values => ∀ value ∈ values, P value) (Args.allOf children) := by
  induction children with
  | nil => exact .ok nofun
  | cons child children ih =>
    have hrest := ih fun c hc => h c (List.mem_cons_of_mem child hc)
    cases h child List.mem_cons_self with
    | error he => exact .error he
    | ok hvalue => exact hrest.map fun values hvalues => List.forall_mem_cons.mpr ⟨hvalue, hvalues⟩

/-- The builder that is used, or the error of a gate without a fallback. -/
theorem selectBuilder_cases (label : String) (builder : Builder) (fallback : Option Builder)
    (gate : Option RuntimeGate) (environment : Environment) :
    (∃ b, selectBuilder label builder fallback gate environment = .ok b ∧
      (b = builder ∨ fallback = some b)) ∨
    (gate ≠ none ∧ fallback = none ∧ ∃ required,
      selectBuilder label builder fallback gate environment =
        .error (.unsupportedOnRuntime label environment.platform required
          environment.runtimeVersion)) := by
  unfold selectBuilder
  cases gate with
  | none => exact .inl ⟨builder, rfl, .inl rfl⟩
  | some gate =>
    cases hcheck : gate.check environment with
    | ok _ => exact .inl ⟨builder, by simp [hcheck], .inl rfl⟩
    | error required =>
      cases fallback with
      | none => exact .inr ⟨nofun, rfl, required, by simp [hcheck]⟩
      | some b => exact .inl ⟨b, by simp [hcheck], .inr rfl⟩

theorem Shape.Sound.meets_finishShape {P : Value → Prop} {typeName : String} {shape : Shape}
    (h : shape.Sound typed E P typeName) (folds : Bool) {children : List Resolvable}
    {context : Context} (hchildren : Fits typed E shape.params (children.map (·.resolve context))) :
    Meets E P ((finishShape folds (shape.label typeName) shape children).resolve context) := by
  rcases finishShape_eq folds (shape.label typeName) shape children with
    ⟨-, value, hfolded, heq⟩ | ⟨-, heq⟩
  · obtain ⟨-, -, values, rfl, hbuild⟩ := folded?_eq_some_iff.mp hfolded
    rw [map_resolve_constants] at hchildren
    -- the builder was run on the same values while they were folded
    have hmade := h.builder _ none hchildren
    rw [foldingArgs] at hbuild
    rw [hbuild] at hmade
    rw [heq]
    exact hmade
  · rw [heq, deferShape, Resolvable.resolve_deferred]
    rcases selectBuilder_cases (shape.label typeName) shape.builder shape.fallback
      shape.availability.runtimeGate context.environment with
      ⟨b, hselect, rfl | hfallback⟩ | ⟨hgate, hfallback, required, hselect⟩
    · rw [hselect]
      exact h.builder _ _ hchildren
    · rw [hselect]
      exact h.fallback b hfallback _ _ hchildren
    · rw [hselect]
      exact .error (h.gate hgate hfallback _ _ _)

/-! ## Trees -/

/-- What a tree is decoded as says what its result may be. -/
def MeetsExpected (typed : String → Value → Prop) (E : ResolveError → Prop)
    (result : Except ResolveError Value) : Expected → Prop
  | .rule rule => Meets E (rule.Holds typed) result
  | .catalog catalog => ∀ P, catalog.Sound typed E P → Meets E P result

/-- **Decoded trees resolve to values of their type or fail as foreseen.** -/
theorem Decoded.meets {d : Decoder} (hregistry : d.registry.Sound typed E) {expected : Expected}
    {r : Resolvable} (h : Decoded d expected r) (context : Context) :
    MeetsExpected typed E (r.resolve context) expected := by
  induction h with
  | literal hvalue => exact Meets.ok (holds_of_decodeLiteral hregistry hvalue)
  | reference hleaf hdefault =>
    refine meets_bound hregistry hleaf (fun value hvalue => ?_) context
    obtain ⟨label, literal, hliteral⟩ := hdefault value hvalue
    exact holds_of_decodeLiteral hregistry hliteral
  | optional _ ih => exact Meets.imp ih fun _ => .optional
  | list _ ih =>
    unfold MeetsExpected
    rw [resolve_finishList]
    exact (meets_allOf (List.forall_mem_map.mpr ih)).map fun _ => .list
  | node hcatalog _ ih =>
    exact Meets.imp (ih _ (hregistry.types _ _ hcatalog)) fun _ => .type
  | shape hshape _ hlength _ ih =>
    intro P hsound
    refine (hsound.shapes _ hshape).meets_finishShape _ ?_
    rw [Fits, List.forall₂_map_right_iff, List.forall₂_iff_zip]
    exact ⟨hlength, fun hmem => ih _ _ hmem⟩
  | case hcase hparams =>
    intro P hsound
    have hshape := hsound.shapes _ hcase
    refine hshape.meets_finishShape _ ?_
    rw [hshape.cases hparams]
    exact .nil

end DeferredStyle
