import DeferredStyle.Proofs.Environment
import DeferredStyle.Proofs.Finishing
import DeferredStyle.Proofs.Provenance
import DeferredStyle.Proofs.Simulation

/-!
# Folding

The decoder runs the builder of a shape early when all children of the shape are constant.  This
file compares it with a decoder that defers every shape and list: both fail alike or return trees
with the same results in every context, provided that builders which may run early make no other
values later on.

* `Builder.Settled` — what a builder has to satisfy; `Registry.Settled` asks it of all builders
  that may run early.
* `Agree` — two trees with the same result in a context.
* `FullyFolded` — nothing in a tree is left to fold.
* `folding_preserves_meaning` — the comparison, for any registry and for the standard ones.
-/

set_option autoImplicit false

namespace DeferredStyle

/-- The decoder that defers every shape and every list. -/
def Registry.unfoldedDecoder (registry : Registry) : Decoder := ⟨registry, false⟩

/-! ## Builders that may run early -/

/-- The values that a builder makes of constants without an environment are the ones it makes of
them in any environment. -/
def Builder.Settled (builder : Builder) : Prop :=
  ∀ label values value, builder.build (foldingArgs label values) = .ok value →
    ∀ environment, builder.build { foldingArgs label values with environment } = .ok value

/-- The builder is settled unless the shape is gated or reads the environment. -/
def Shape.Settled (shape : Shape) : Prop :=
  shape.availability.runtimeGate = none → shape.contextual = false → shape.builder.Settled

/-- Every shape is settled. -/
def Catalog.Settled (catalog : Catalog) : Prop :=
  ∀ shape ∈ catalog.shapes, shape.Settled

/-- Every type is settled. -/
def Registry.Settled (registry : Registry) : Prop :=
  ∀ name catalog, registry.catalog? name = some catalog → catalog.Settled

/-! ## Results of folded trees -/

/-- A settled shape has the same result whether it is folded or not. -/
theorem resolve_finishShape {shape : Shape} (h : shape.Settled) (folds : Bool) (label : String)
    (children : List Resolvable) (context : Context) :
    (finishShape folds label shape children).resolve context =
      (deferShape label shape children).resolve context := by
  rcases finishShape_eq folds label shape children with ⟨-, value, hfolded, heq⟩ | ⟨-, heq⟩
  · obtain ⟨hgate, hcontextual, values, rfl, hbuild⟩ := folded?_eq_some_iff.mp hfolded
    have hlater := h hgate hcontextual label values value hbuild (some context.environment)
    rw [heq, deferShape, Resolvable.resolve_deferred, hgate, map_resolve_constants]
    exact hlater.symm
  · rw [heq]

/-- Two trees have the same result in a context. -/
def Agree (context : Context) (r r' : Resolvable) : Prop :=
  r.resolve context = r'.resolve context

variable {context : Context}

theorem related_agree_refl {ε : Type} (result : Except ε Resolvable) :
    Related Eq (Agree context) result result :=
  .refl (R := Agree context) (fun _ => rfl) (fun _ => rfl) result

theorem map_resolve_of_agree {rs rs' : List Resolvable}
    (h : List.Forall₂ (Agree context) rs rs') :
    rs.map (Resolvable.resolve context) = rs'.map (Resolvable.resolve context) := by
  induction h with
  | nil => rfl
  | cons hhead _ ih => rw [List.map_cons, List.map_cons, ih, hhead]

theorem agree_finishShape {shape : Shape} (h : shape.Settled) (folds folds' : Bool) (label : String)
    {children children' : List Resolvable}
    (hchildren : List.Forall₂ (Agree context) children children') :
    Agree context (finishShape folds label shape children)
      (finishShape folds' label shape children') := by
  unfold Agree
  rw [resolve_finishShape h, resolve_finishShape h, deferShape, deferShape,
    Resolvable.resolve_deferred, Resolvable.resolve_deferred, map_resolve_of_agree hchildren]

theorem agree_finishList (folds folds' : Bool) (rule : Rule) {items items' : List Resolvable}
    (hitems : List.Forall₂ (Agree context) items items') :
    Agree context (finishList folds rule items) (finishList folds' rule items') := by
  unfold Agree
  rw [resolve_finishList, resolve_finishList, map_resolve_of_agree hitems]

/-! ## The two decoders side by side -/

/-- A term is decoded alike by both decoders, whatever it is decoded as. -/
def DecodesAlike (registry : Registry) (context : Context) (term : Term) : Prop :=
  ∀ rule label default, Related Eq (Agree context)
    (registry.decoder.decodeTerm term rule label default)
    (registry.unfoldedDecoder.decodeTerm term rule label default)

variable {registry : Registry} {catalog : Catalog}

theorem attempt_alike {typeName : String} {shape : Shape} (hshape : shape.Settled) {node : Node}
    (hargs : ∀ a ∈ node.arguments, DecodesAlike registry context a.value) :
    Related Eq (Agree context) (registry.decoder.attempt typeName node shape)
      (registry.unfoldedDecoder.attempt typeName node shape) := by
  rw [Decoder.attempt_eq, Decoder.attempt_eq]
  cases hbindings : bindArguments shape.params node.arguments with
  | error e => exact .error rfl
  | ok bindings =>
    -- both decoders read the same bindings, and a bound term is an argument's
    refine (decodeParams_related ?_).map fun children children' hchildren =>
      agree_finishShape hshape _ _ _ hchildren
    rw [List.forall₂_map_left_iff, List.forall₂_map_right_iff, List.forall₂_same]
    intro binding hbinding param _
    cases binding with
    | given term =>
      obtain ⟨a, ha, rfl⟩ := mem_of_bindArguments hbindings hbinding
      exact hargs a ha _ _ _
    | default literal => exact related_agree_refl _

theorem related_of_arguments (hcatalog : catalog.Settled) {node : Node}
    (hargs : ∀ a ∈ node.arguments, DecodesAlike registry context a.value) :
    Related Eq (Agree context) (registry.decoder.decode node catalog)
      (registry.unfoldedDecoder.decode node catalog) := by
  apply Decoder.decode_related (E := Eq) rfl rfl
  · intro shape hshape _
    exact attempt_alike (hcatalog shape hshape) hargs
  · intro case hcase _
    exact agree_finishShape (hcatalog case hcase) _ _ _ .nil
  · intro entries entries' cases hentries
    rw [hentries.eq]

theorem decodesAlike (hregistry : registry.Settled) (context : Context) (term : Term) :
    DecodesAlike registry context term := by
  induction term with
  | literal literal => exact fun rule label default => related_agree_refl _
  | reference name annotations => exact fun rule label default => related_agree_refl _
  | call node hargs =>
    intro rule label default
    apply decodeNested_related rfl (fun _ => rfl) (fun _ _ h => congrArg _ h)
    intro name catalog hcatalog
    exact related_of_arguments (hregistry name catalog hcatalog) hargs
  | list items hitems =>
    intro rule label default
    refine decodeList_related rfl (fun item rs rs' _ hrs => agree_finishList _ _ _ hrs)
      (fun item _ => decodeItems_related ?_)
    rw [List.forall₂_same]
    exact fun term hterm => hitems term hterm _ _ _

/-- Folding changes neither the failures of a node nor the results of its tree. -/
theorem decode_unfolded (hregistry : registry.Settled) (hcatalog : catalog.Settled) (node : Node)
    (context : Context) :
    (registry.decoder.decode node catalog).map (Resolvable.resolve context) =
      (registry.unfoldedDecoder.decode node catalog).map (Resolvable.resolve context) :=
  Related.iff_map_eq.mp
    (related_of_arguments hcatalog fun a _ => decodesAlike hregistry context a.value)

/-! ## The standard vocabulary -/

theorem Catalog.IgnoresEnvironment.settled {catalog : Catalog} (h : catalog.IgnoresEnvironment) :
    catalog.Settled := by
  intro shape hshape _ hcontextual label values value hbuild environment
  rw [(h shape hshape hcontextual).1 (foldingArgs label values) environment]
  exact hbuild

theorem Registry.standard_settled (platform : Platform) : (standard platform).Settled :=
  fun _ _ hcatalog => (ignoresEnvironment_of_catalog? hcatalog).settled

theorem decodeType_unfolded (hregistry : registry.Settled) (node : Node) (typeName : String)
    (context : Context) :
    (registry.decoder.decodeType node typeName).map (Resolvable.resolve context) =
      (registry.unfoldedDecoder.decodeType node typeName).map (Resolvable.resolve context) := by
  unfold Decoder.decodeType
  cases hcatalog : registry.catalog? typeName with
  | none => simp only [Registry.decoder, Registry.unfoldedDecoder, hcatalog]
  | some catalog =>
    simp only [Registry.decoder, Registry.unfoldedDecoder, hcatalog]
    exact decode_unfolded hregistry (hregistry typeName catalog hcatalog) node context

theorem decodeModifier_unfolded (hregistry : registry.Settled) (node : Node) (context : Context)
    (hmodifier : ∀ catalog, registry.modifier? node.tag = some catalog → catalog.Settled) :
    (registry.decoder.decodeModifier node).map (Resolvable.resolve context) =
      (registry.unfoldedDecoder.decodeModifier node).map (Resolvable.resolve context) := by
  unfold Decoder.decodeModifier
  cases hcatalog : registry.modifier? node.tag with
  | none => simp only [Registry.decoder, Registry.unfoldedDecoder, hcatalog]
  | some catalog =>
    simp only [Registry.decoder, Registry.unfoldedDecoder, hcatalog]
    exact decode_unfolded hregistry (hmodifier catalog hcatalog) node context

/-! ## Nothing left to fold -/

/-- A tree in which nothing is left to fold; its shapes come from catalogs that `origin` holds
of. -/
inductive FullyFolded (origin : Catalog → Prop) : Resolvable → Prop
  | constant (value : Value) : FullyFolded origin (.constant value)
  | bound (binding : AttributeBinding) : FullyFolded origin (.bound binding)
  /-- A list, of which some item is not constant. -/
  | list {rule : Rule} {items : List Resolvable} (hitems : ∀ item ∈ items, FullyFolded origin item)
      (hopen : ∀ values : List Value, items ≠ values.map .constant) :
      FullyFolded origin (.deferred ⟨rule.text, .list, none, none, items⟩)
  /-- A shape that is gated, or contextual, or has a child that is not constant, or whose builder
  rejects its children without an environment. -/
  | shape {catalog : Catalog} {shape : Shape} {children : List Resolvable}
      (hcatalog : origin catalog) (hshape : shape ∈ catalog.shapes)
      (hchildren : ∀ child ∈ children, FullyFolded origin child)
      (hopen : shape.availability.runtimeGate = none → shape.contextual = false →
        ∀ values : List Value, children = values.map .constant →
          ∃ e, shape.builder.build (foldingArgs (shape.label catalog.typeName) values) = .error e) :
      FullyFolded origin (deferShape (shape.label catalog.typeName) shape children)

/-- The catalogs that a decoding against `catalog` may use. -/
def Registry.Provides (registry : Registry) (catalog other : Catalog) : Prop :=
  other = catalog ∨ ∃ name, registry.catalog? name = some other

variable {origin : Catalog → Prop}

theorem fullyFolded_finishShape {shape : Shape} {children : List Resolvable}
    (hcatalog : origin catalog) (hshape : shape ∈ catalog.shapes)
    (hchildren : ∀ child ∈ children, FullyFolded origin child) :
    FullyFolded origin (finishShape true (shape.label catalog.typeName) shape children) := by
  rcases finishShape_eq true (shape.label catalog.typeName) shape children with
    ⟨-, value, -, heq⟩ | ⟨hfolded, heq⟩
  · rw [heq]
    exact .constant value
  · rw [heq]
    refine .shape hcatalog hshape hchildren fun hgate hcontextual values hvalues => ?_
    cases hbuild : shape.builder.build (foldingArgs (shape.label catalog.typeName) values) with
    | error e => exact ⟨e, rfl⟩
    | ok value =>
      have hsome := folded?_eq_some_iff.mpr ⟨hgate, hcontextual, values, hvalues, hbuild⟩
      rw [hfolded rfl] at hsome
      cases hsome

theorem fullyFolded_finishList {rule : Rule} {items : List Resolvable}
    (hitems : ∀ item ∈ items, FullyFolded origin item) :
    FullyFolded origin (finishList true rule items) := by
  rcases finishList_eq true rule items with ⟨-, values, -, heq⟩ | ⟨hopen, heq⟩
  · rw [heq]
    exact .constant _
  · rw [heq]
    exact .list hitems (hopen rfl)

theorem Decoded.fullyFolded {expected : Expected} {r : Resolvable}
    (horigin : ∀ name catalog, registry.catalog? name = some catalog → origin catalog)
    (h : Decoded registry.decoder expected r) :
    (∀ catalog, expected = .catalog catalog → origin catalog) → FullyFolded origin r := by
  induction h with
  | literal => exact fun _ => .constant _
  | reference => exact fun _ => .bound _
  | optional _ ih => exact fun _ => ih nofun
  | list _ ih => exact fun _ => fullyFolded_finishList fun item hitem => ih item hitem nofun
  | node hcatalog _ ih =>
    intro _
    refine ih fun catalog heq => ?_
    cases heq
    exact horigin _ _ hcatalog
  | shape hshape _ hlength _ ih =>
    intro hexpected
    refine fullyFolded_finishShape (hexpected _ rfl) hshape fun child hchild => ?_
    obtain ⟨index, hindex, rfl⟩ := List.getElem_of_mem hchild
    refine ih _ _ (List.mem_iff_getElem.mpr ⟨index, ?_, List.getElem_zip⟩) nofun
    simpa [hlength] using hindex
  | case hcase _ =>
    intro hexpected
    exact fullyFolded_finishShape (hexpected _ rfl) hcase nofun

theorem fullyFolded_of_decode {node : Node} {r : Resolvable}
    (h : registry.decoder.decode node catalog = .ok r) :
    FullyFolded (registry.Provides catalog) r := by
  refine (decoded_of_decode h).fullyFolded (fun name other hother => .inr ⟨name, hother⟩) ?_
  intro other heq
  cases heq
  exact .inl rfl

/-- **Folding preserves meaning.**  Where builders that may run early are settled, decoding a node
with and without folding fails alike or gives trees with the same result in every context.  The
standard vocabulary is settled on every platform.  The trees of the folding decoder leave nothing to
fold, in any registry. -/
theorem folding_preserves_meaning :
    (∀ (registry : Registry) (catalog : Catalog), registry.Settled → catalog.Settled →
      ∀ (node : Node) (context : Context),
        (registry.decoder.decode node catalog).map (Resolvable.resolve context) =
          (registry.unfoldedDecoder.decode node catalog).map (Resolvable.resolve context)) ∧
    (∀ platform : Platform, (Registry.standard platform).Settled ∧
      (∀ name catalog, (Registry.standard platform).modifier? name = some catalog →
        catalog.Settled) ∧
      ∀ (node : Node) (context : Context),
        (∀ typeName,
          ((Registry.standard platform).decoder.decodeType node typeName).map
              (Resolvable.resolve context) =
            ((Registry.standard platform).unfoldedDecoder.decodeType node typeName).map
              (Resolvable.resolve context)) ∧
        ((Registry.standard platform).decoder.decodeModifier node).map
            (Resolvable.resolve context) =
          ((Registry.standard platform).unfoldedDecoder.decodeModifier node).map
            (Resolvable.resolve context)) ∧
    ∀ (registry : Registry) (catalog : Catalog) (node : Node) (r : Resolvable),
      registry.decoder.decode node catalog = .ok r →
      FullyFolded (registry.Provides catalog) r := by
  refine ⟨?_, ?_, ?_⟩
  · intro registry catalog hregistry hcatalog node context
    exact decode_unfolded hregistry hcatalog node context
  · intro platform
    have hregistry := Registry.standard_settled platform
    have hmodifiers : ∀ name catalog, (Registry.standard platform).modifier? name = some catalog →
        catalog.Settled := by
      intro name catalog hcatalog
      exact (Registry.ignoresEnvironment_of_modifier? hcatalog).settled
    refine ⟨hregistry, hmodifiers, fun node context => ⟨fun typeName => ?_, ?_⟩⟩
    · exact decodeType_unfolded hregistry node typeName context
    · exact decodeModifier_unfolded hregistry node context (hmodifiers node.tag)
  · intro registry catalog node r h
    exact fullyFolded_of_decode h

/-- A gradient whose first stop is folded and whose second reads an attribute. -/
theorem folding_preserves_meaning_gradient :
    let registry := Registry.standard .ios
    let faded : Node := Node.member (some "opacity")
      [⟨none, .call (Node.member (some "red") [])⟩, ⟨none, .literal (.float 0.5)⟩]
    let gradient : Node := Node.member (some "gradient")
      [⟨some "stops", .list [.call faded, .reference "tint" .empty]⟩]
    registry.Settled ∧ Vocabulary.paint.Settled ∧
      (registry.decoder.decode faded Vocabulary.color).toOption.map Resolvable.isConstant =
        some true ∧
      (registry.unfoldedDecoder.decode faded Vocabulary.color).toOption.map
        Resolvable.isConstant = some false ∧
      (∀ context, (registry.decoder.decode gradient Vocabulary.paint).map
          (Resolvable.resolve context) =
        (registry.unfoldedDecoder.decode gradient Vocabulary.paint).map
          (Resolvable.resolve context)) ∧
      ∃ r, registry.decoder.decode gradient Vocabulary.paint = .ok r ∧
        FullyFolded (registry.Provides Vocabulary.paint) r := by
  intro registry faded gradient
  have hregistry : registry.Settled := Registry.standard_settled .ios
  have hpaint : Vocabulary.paint.Settled := Vocabulary.paint_ignoresEnvironment.settled
  have hok : (registry.decoder.decode gradient Vocabulary.paint).isOk = true := by decide +kernel
  obtain ⟨r, hr⟩ := exists_ok_of_isOk hok
  refine ⟨hregistry, hpaint, by decide +kernel, by decide +kernel, fun context => ?_, r, hr, ?_⟩
  · exact folding_preserves_meaning.1 registry Vocabulary.paint hregistry hpaint gradient context
  · exact folding_preserves_meaning.2.2 registry Vocabulary.paint gradient r hr

end DeferredStyle
