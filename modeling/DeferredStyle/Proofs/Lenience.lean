import DeferredStyle.Proofs.Origins

/-!
# Literals as attributes

A leaf decoder has one rule for documents and one for attributes.  The rule for attributes may take
more, but what the rule for documents takes it takes to the same value.  So an element may hold a
literal in an attribute where a document would write it.

* `Leaf.Lenient` — the law for one leaf decoder; `Rule.Lenient` and `Registry.Lenient` ask it of the
  leaf decoder in a rule and of those that the types of a registry have for bare literals.
* `Leaf.lenient_of_mem_primitives`, `Vocabulary.lenient_of_mem_leaves` — every leaf decoder of the
  library obeys it.
* `attribute_means_literal` — a bound attribute that holds a literal has the literal's value.
-/

set_option autoImplicit false

namespace DeferredStyle

/-! ## The law -/

/-- What is taken from documents is taken from attributes, to the same value. -/
def Leaf.Lenient (leaf : Leaf) : Prop :=
  ∀ literal value, leaf.decodeLiteral literal = .ok value →
    leaf.decodeAttribute literal = .ok value

/-- The leaf decoder in a rule is lenient, if there is one. -/
def Rule.Lenient : Rule → Prop
  | .leaf l => l.Lenient
  | .type _ => True
  | .list item => item.Lenient
  | .optional inner => inner.Lenient

/-- The types of the registry decode bare literals leniently. -/
def Registry.Lenient (registry : Registry) : Prop :=
  ∀ name catalog leaf, registry.catalog? name = some catalog → catalog.literal = some leaf →
    leaf.Lenient

theorem Rule.Lenient.core {rule : Rule} (h : rule.Lenient) : rule.core.Lenient := by
  induction rule with
  | leaf leaf => exact h
  | type name => exact h
  | list item => exact h
  | optional inner ih => exact ih h

/-! ## The leaf decoders of the vocabulary -/

namespace Leaf

theorem uniform_lenient (name : String) (rule : Literal → Except String Value) :
    (uniform name rule).Lenient :=
  fun _ _ h => h

/-- Attributes only add texts, of which documents take none but as texts. -/
theorem lenient_of_mem_primitives : ∀ leaf ∈ [bool, int, float, string], leaf.Lenient := by
  intro leaf hleaf literal value h
  simp only [List.mem_cons, List.not_mem_nil, or_false] at hleaf
  rcases hleaf with rfl | rfl | rfl | rfl
  on_goal 4 => exact h
  all_goals
    cases literal with
    | string s => cases h
    | _ => exact h

end Leaf

namespace Vocabulary

/-- No name of a color is a hexadecimal text. -/
theorem ofHex?_of_named? {text : String} {color : Color} (h : Color.named? text = some color) :
    Color.ofHex? text = none := by
  unfold Color.named? at h
  split at h
  case h_12 => cases h
  all_goals rfl

theorem named?_of_ofHex? {text : String} {color : Color} (h : Color.ofHex? text = some color) :
    Color.named? text = none := by
  refine Option.eq_none_iff_forall_ne_some.mpr fun named hnamed => ?_
  rw [ofHex?_of_named? hnamed] at h
  cases h

/-- Attributes look for names first, and no hexadecimal text is one. -/
theorem hexLeaf_lenient : hexLeaf.Lenient := by
  intro literal value h
  cases literal with
  | string text =>
    simp only [hexLeaf, hexLiteral] at h
    split at h
    · rename_i color hcolor
      cases h
      simp only [hexLeaf, colorLiteral, colorOfText?, named?_of_ofHex? hcolor, hcolor,
        Option.none_or]
    · cases h
  | _ => cases h

/-- **Every leaf decoder of the vocabulary is lenient.** -/
theorem lenient_of_mem_leaves : ∀ leaf ∈ leaves, leaf.Lenient := by
  intro leaf hleaf
  rcases List.mem_cons.mp hleaf with rfl | hleaf
  · exact hexLeaf_lenient
  · obtain ⟨catalog, hcatalog, hliteral⟩ := List.mem_filterMap.mp hleaf
    simp only [types, List.mem_cons, List.not_mem_nil, or_false] at hcatalog
    -- lengths are numbers; every other type has one rule for documents and attributes
    rcases hcatalog with rfl | rfl | rfl | rfl | rfl | rfl | rfl | rfl <;> cases hliteral
    · exact Leaf.lenient_of_mem_primitives _ (by simp)
    all_goals exact Leaf.uniform_lenient _ _

end Vocabulary

theorem Rule.OfVocabulary.lenient {rule : Rule} (h : rule.OfVocabulary) : rule.Lenient := by
  induction rule with
  | leaf l => exact Vocabulary.lenient_of_mem_leaves l h
  | type name => trivial
  | list item ih => exact ih h
  | optional inner ih => exact ih h

theorem Registry.standard_lenient (platform : Platform) : (standard platform).Lenient := by
  intro name catalog leaf hcatalog hleaf
  rw [catalog?_standard] at hcatalog
  obtain ⟨source, hsource, rfl⟩ := Option.map_eq_some_iff.mp hcatalog
  refine Vocabulary.lenient_of_mem_leaves leaf (List.mem_cons_of_mem _ ?_)
  exact List.mem_filterMap.mpr ⟨source, mem_of_lastNamed? hsource, hleaf⟩

/-! ## Attributes for literals -/

theorem attributeLeaf?_lenient {registry : Registry} {rule : Rule} (hregistry : registry.Lenient)
    (hrule : rule.Lenient) {leaf : Leaf} (h : attributeLeaf? registry rule = some leaf) :
    leaf.Lenient := by
  rcases attributeLeaf?_some h with hcore | ⟨name, catalog, -, hcatalog, hliteral⟩
  · have hlenient := hrule.core
    rw [hcore] at hlenient
    exact hlenient
  · exact hregistry name catalog leaf hcatalog hliteral

theorem AttributeBinding.resolve_of_attribute? {binding : AttributeBinding} {context : Context}
    {literal : Literal} {value : Value} (hpresent : context.attribute? binding.name = some literal)
    (hdecode : binding.decoder.decodeAttribute literal = .ok value) :
    binding.resolve context = .ok value := by
  simp only [resolve, decode, hpresent, hdecode]

/-- **An attribute that holds a literal means what the literal means.**  Every leaf decoder of the
vocabulary is lenient; where the leaf decoders of a registry and of a rule are, a literal other than
nil and a reference to an attribute that holds it have the same value, whatever the default.  The
standard registries are of this kind, and the rules of all their parameters. -/
theorem attribute_means_literal :
    (∀ leaf ∈ [.bool, .int, .float, .string] ++ Vocabulary.leaves, ∀ literal value,
      leaf.decodeLiteral literal = .ok value → leaf.decodeAttribute literal = .ok value) ∧
    (∀ (d : Decoder) (rule : Rule), d.registry.Lenient → rule.Lenient →
      ∀ (label : String) (default : Option Literal) (literal : Literal) (value : Value),
        literal ≠ .nil →
        d.decodeTerm (.literal literal) rule label default = .ok (.constant value) →
        ∀ (name : String) (annotations : Annotations) (r : Resolvable),
          d.decodeTerm (.reference name annotations) rule label default = .ok r →
          ∀ context : Context, context.attribute? name = some literal →
            r.resolve context = .ok value) ∧
    ∀ platform : Platform, (Registry.standard platform).Lenient ∧
      ∀ catalog, (Registry.standard platform).Registers catalog →
        ∀ shape ∈ catalog.shapes, ∀ param ∈ shape.params, param.rule.Lenient := by
  refine ⟨?_, ?_, fun platform => ⟨Registry.standard_lenient platform, ?_⟩⟩
  · intro leaf hleaf
    rcases List.mem_append.mp hleaf with hleaf | hleaf
    · exact Leaf.lenient_of_mem_primitives leaf hleaf
    · exact Vocabulary.lenient_of_mem_leaves leaf hleaf
  · intro d rule hregistry hrule label default literal value hnil hliteral name annotations r
      hreference context hpresent
    rw [Decoder.decodeTerm_literal, map_eq_ok_iff] at hliteral
    obtain ⟨own, hown, heq⟩ := hliteral
    cases heq
    -- both terms go to the leaf decoder of the rule
    obtain ⟨leaf, hleaf, hdecode⟩ := (decodeLiteral_ok hown).resolve_left
      fun ⟨_, _, heq, _⟩ => hnil heq
    obtain ⟨leaf', value?, hleaf', -, rfl⟩ := bindAttribute_ok hreference
    obtain rfl : leaf = leaf' := Option.some.inj (hleaf.symm.trans hleaf')
    have hlenient := attributeLeaf?_lenient hregistry hrule hleaf
    exact AttributeBinding.resolve_of_attribute? hpresent (hlenient literal value hdecode)
  · intro catalog hcatalog shape hshape param hparam
    have hshape' := (Registry.hasShape_of_registers hcatalog shape hshape).1
    exact (hshape'.rules_ofVocabulary param hparam).lenient

/-- A hexadecimal text under an optional rule, in a document and in an attribute. -/
theorem attribute_means_literal_hex :
    let d := (Registry.standard .ios).decoder
    let rule := Rule.optional (.optional (.leaf Vocabulary.hexLeaf))
    let literal := Literal.string " #0af "
    let context : Context := ⟨fun name => if name = "tint" then some literal else none, .standard⟩
    ∃ value r, d.decodeTerm (.literal literal) rule "_" (some .nil) = .ok (.constant value) ∧
      d.decodeTerm (.reference "tint" .empty) rule "_" (some .nil) = .ok r ∧
      r.resolve context = .ok value := by
  intro d rule literal context
  have hok : (decodeLiteral d.registry rule "_" literal).isOk = true := by decide +kernel
  obtain ⟨value, hvalue⟩ := exists_ok_of_isOk hok
  have hliteral : d.decodeTerm (.literal literal) rule "_" (some .nil) = .ok (.constant value) :=
    map_eq_ok_iff.mpr ⟨value, hvalue, rfl⟩
  have hreference : d.decodeTerm (.reference "tint" .empty) rule "_" (some .nil) =
      .ok (.bound ⟨"tint", Vocabulary.hexLeaf, some .nil⟩) := rfl
  have hregistry : d.registry.Lenient := (attribute_means_literal.2.2 .ios).1
  have hrule : rule.Lenient := attribute_means_literal.1 Vocabulary.hexLeaf
    (List.mem_append_right _ Vocabulary.hexLeaf_mem_leaves)
  exact ⟨value, _, hliteral, hreference, attribute_means_literal.2.1 d rule hregistry hrule "_"
    (some .nil) literal value nofun hliteral "tint" .empty _ hreference context rfl⟩

end DeferredStyle
