import DeferredStyle.Proofs.Candidates

/-!
# Where decoded trees come from

Every tree that the decoder returns is built by a few rules: the value of a literal, a reference, a
list, or a shape of a catalog on children that were decoded by the rules of its parameters.  What
holds of all decoded trees is proved by induction on these rules, with no further look at nodes.

* `Decoded` — the rules, for arguments of a parameter and for nodes of a catalog.
* `decodeLiteral_ok`, `bindAttribute_ok` — literals and references under one rule go to the same
  leaf decoder.
* `decoded_of_decode` — the decoder's trees are built by them.
* `Decoder.decodeType_ok`, `Decoder.decodeModifier_ok` — the catalog that a node was decoded
  against.
-/

set_option autoImplicit false

namespace DeferredStyle

/-- What a tree is decoded as: an argument under a rule, or a node of a catalog. -/
inductive Expected where
  | rule (rule : Rule)
  | catalog (catalog : Catalog)

/-- The trees that a decoder builds. -/
inductive Decoded (d : Decoder) : Expected → Resolvable → Prop
  /-- The value of a literal of the document, or of a default. -/
  | literal {rule : Rule} {label : String} {literal : Literal} {value : Value}
      (hvalue : decodeLiteral d.registry rule label literal = .ok value) :
      Decoded d (.rule rule) (.constant value)
  /-- A reference with the decoder of the rule; its default is a value of the rule. -/
  | reference {rule : Rule} {name : String} {leaf : Leaf} {default : Option Value}
      (hleaf : attributeLeaf? d.registry rule = some leaf)
      (hdefault : ∀ value, default = some value →
        ∃ label literal, decodeLiteral d.registry rule label literal = .ok value) :
      Decoded d (.rule rule) (.bound ⟨name, leaf, default⟩)
  | optional {inner : Rule} {r : Resolvable} (hinner : Decoded d (.rule inner) r) :
      Decoded d (.rule (.optional inner)) r
  | list {item : Rule} {items : List Resolvable} (hitems : ∀ r ∈ items, Decoded d (.rule item) r) :
      Decoded d (.rule (.list item)) (finishList d.folds (.list item) items)
  | node {name : String} {catalog : Catalog} {r : Resolvable}
      (hcatalog : d.registry.catalog? name = some catalog)
      (hnode : Decoded d (.catalog catalog) r) :
      Decoded d (.rule (.type name)) r
  /-- A shape with parameters, on one child for each of them. -/
  | shape {catalog : Catalog} {shape : Shape} {children : List Resolvable}
      (hshape : shape ∈ catalog.shapes) (hparams : shape.isBareCase = false)
      (hlength : shape.params.length = children.length)
      (hchildren : ∀ param child, (param, child) ∈ shape.params.zip children →
        Decoded d (.rule param.rule) child) :
      Decoded d (.catalog catalog)
        (finishShape d.folds (shape.label catalog.typeName) shape children)
  | case {catalog : Catalog} {case : Shape} (hcase : case ∈ catalog.shapes)
      (hparams : case.isBareCase = true) :
      Decoded d (.catalog catalog) (finishShape d.folds (case.label catalog.typeName) case [])

variable {d : Decoder}

/-! ## Rules -/

/-- A tree of the rule behind all optionals is one of the rule. -/
theorem Decoded.of_core {rule : Rule} {r : Resolvable} (h : Decoded d (.rule rule.core) r) :
    Decoded d (.rule rule) r := by
  induction rule with
  | optional inner ih => exact .optional (ih h)
  | leaf leaf => exact h
  | type name => exact h
  | list item => exact h

/-! ## Literals and references -/

section Literals

variable {registry : Registry} {rule : Rule} {label : String} {value : Value}

theorem decodeDefault_ok {literal : Literal}
    (h : decodeDefault registry rule label literal = .ok value) :
    decodeLiteral registry rule label literal = .ok value := by
  unfold decodeDefault at h
  split at h
  · rename_i v hv
    cases h
    exact hv
  · cases h

theorem decodeLeaf_ok {leaf : Leaf} {literal : Literal}
    (h : decodeLeaf leaf rule label literal = .ok value) :
    leaf.decodeLiteral literal = .ok value := by
  unfold decodeLeaf at h
  split at h
  · rename_i v hv
    cases h
    exact hv
  · cases h

/-- The decoder for attributes is the rule's own, or that of the type it names. -/
theorem attributeLeaf?_some {leaf : Leaf} (h : attributeLeaf? registry rule = some leaf) :
    rule.core = .leaf leaf ∨ ∃ name catalog, rule.core = .type name ∧
      registry.catalog? name = some catalog ∧ catalog.literal = some leaf := by
  unfold attributeLeaf? at h
  split at h
  · rename_i own hcore
    cases h
    exact .inl hcore
  · rename_i name hcore
    obtain ⟨catalog, hcatalog, hliteral⟩ := Option.bind_eq_some_iff.mp h
    exact .inr ⟨name, catalog, hcore, hcatalog, hliteral⟩
  · cases h

/-- A literal is decoded by the decoder for attributes, unless it is the nil of an optional. -/
theorem decodeLiteral_ok {literal : Literal}
    (h : decodeLiteral registry rule label literal = .ok value) :
    (∃ inner, rule = .optional inner ∧ literal = .nil ∧ value = .nil) ∨
      ∃ leaf, attributeLeaf? registry rule = some leaf ∧
        leaf.decodeLiteral literal = .ok value := by
  unfold decodeLiteral at h
  split at h
  · cases h
    exact .inl ⟨_, rfl, rfl, rfl⟩
  · refine .inr ?_
    unfold decodeCoreLiteral at h
    unfold attributeLeaf?
    split at h
    · rename_i leaf _
      exact ⟨leaf, rfl, decodeLeaf_ok h⟩
    · split at h
      · cases h
      · rename_i catalog hcatalog
        split at h
        · cases h
        · rename_i leaf hleaf
          exact ⟨leaf, by simp only [hcatalog, Option.bind_some, hleaf], decodeLeaf_ok h⟩
    · cases h

/-- A reference carries the decoder for attributes and the value of the default. -/
theorem bindAttribute_ok {default : Option Literal} {name : String} {r : Resolvable}
    (h : bindAttribute registry rule label default name = .ok r) :
    ∃ leaf value?, attributeLeaf? registry rule = some leaf ∧
      default.map (decodeDefault registry rule label) = value?.map .ok ∧
      r = .bound ⟨name, leaf, value?⟩ := by
  unfold bindAttribute at h
  split at h
  · cases h
  · rename_i leaf hleaf
    split at h
    · cases h
      exact ⟨leaf, none, hleaf, rfl, rfl⟩
    · rename_i literal
      split at h
      · cases h
      · rename_i value hvalue
        cases h
        exact ⟨leaf, some value, hleaf, congrArg some hvalue, rfl⟩

end Literals

theorem decoded_of_bindAttribute {rule : Rule} {label : String} {default : Option Literal}
    {name : String} {r : Resolvable}
    (h : bindAttribute d.registry rule label default name = .ok r) : Decoded d (.rule rule) r := by
  obtain ⟨leaf, value?, hleaf, hdefault, rfl⟩ := bindAttribute_ok h
  refine .reference hleaf fun value hvalue => ?_
  subst hvalue
  obtain ⟨literal, -, hliteral⟩ := Option.map_eq_some_iff.mp hdefault
  exact ⟨label, literal, decodeDefault_ok hliteral⟩

/-! ## Lists and children -/

theorem exists_left_of_forall₂ {α β : Type} {R : α → β → Prop} {as : List α} {bs : List β} {b : β}
    (h : List.Forall₂ R as bs) (hb : b ∈ bs) : ∃ a ∈ as, R a b := by
  induction h with
  | nil => cases hb
  | cons hhead _ ih =>
    rcases List.mem_cons.mp hb with rfl | hb
    · exact ⟨_, List.mem_cons_self, hhead⟩
    · obtain ⟨a, ha, hab⟩ := ih hb
      exact ⟨a, List.mem_cons_of_mem _ ha, hab⟩

theorem getElem?_of_forall₂ {α β : Type} {R : α → β → Prop} {as : List α} {bs : List β}
    (h : List.Forall₂ R as bs) {index : Nat} {a : α} (ha : as[index]? = some a) :
    ∃ b, bs[index]? = some b ∧ R a b := by
  induction h generalizing index with
  | nil => cases ha
  | cons hhead _ ih =>
    cases index with
    | zero =>
      cases ha
      exact ⟨_, rfl, hhead⟩
    | succ index => exact ih ha

/-- The items of a decoded list, one by one. -/
theorem decodeItems_ok {items : List Term} {rule : Rule} {label : String} {rs : List Resolvable}
    (h : d.decodeItems items rule label = .ok rs) :
    List.Forall₂ (fun item r => d.decodeTerm item rule label none = .ok r) items rs := by
  induction items generalizing rs with
  | nil =>
    cases h
    exact .nil
  | cons item items ih =>
    rw [Decoder.decodeItems_cons] at h
    split at h
    · cases h
    · rename_i r hr
      obtain ⟨rest, hrest, rfl⟩ := map_eq_ok_iff.mp h
      exact .cons hr (ih hrest)

/-- The children of a shape, one by one. -/
theorem decodeParams_ok {registry : Registry} {params : List Param}
    {bindings : List (Binding Reading)} {children : List Resolvable}
    (hlength : bindings.length = params.length)
    (h : decodeParams registry params bindings = .ok children) :
    List.Forall₂ (fun param child => ∃ binding ∈ bindings,
      decodeParam registry param binding = .ok child) params children := by
  induction params generalizing bindings children with
  | nil =>
    cases h
    exact .nil
  | cons param params ih =>
    obtain _ | ⟨binding, bindings⟩ := bindings
    · cases hlength
    rw [decodeParams] at h
    split at h
    · cases h
    · rename_i child hchild
      obtain ⟨rest, hrest, rfl⟩ := map_eq_ok_iff.mp h
      refine .cons ⟨binding, List.mem_cons_self, hchild⟩ ?_
      refine (ih (by simpa using hlength) hrest).imp fun param child ⟨b, hb, hdecode⟩ => ?_
      exact ⟨b, List.mem_cons_of_mem binding hb, hdecode⟩

/-- The parts of an attempt that succeeds. -/
theorem Decoder.attempt_ok {typeName : String} {node : Node} {shape : Shape} {r : Resolvable}
    (h : d.attempt typeName node shape = .ok r) :
    ∃ bindings children, bindArguments shape.params node.arguments = .ok bindings ∧
      decodeParams d.registry shape.params (bindings.map (Binding.map d.decodeTerm)) =
        .ok children ∧
      r = finishShape d.folds (shape.label typeName) shape children := by
  rw [d.attempt_eq] at h
  split at h
  · cases h
  · rename_i bindings hbindings
    obtain ⟨children, hchildren, rfl⟩ := map_eq_ok_iff.mp h
    exact ⟨bindings, children, hbindings, hchildren, rfl⟩

/-! ## Terms and nodes -/

/-- A term is decoded by the rules, whatever it is decoded as. -/
def DecodesTo (d : Decoder) (term : Term) : Prop :=
  ∀ rule label default r, d.decodeTerm term rule label default = .ok r → Decoded d (.rule rule) r

theorem decoded_of_decodeParam {param : Param} {binding : Binding Term} {r : Resolvable}
    (hterm : ∀ term, binding = .given term → DecodesTo d term)
    (h : decodeParam d.registry param (binding.map d.decodeTerm) = .ok r) :
    Decoded d (.rule param.rule) r := by
  cases binding with
  | given term => exact hterm term rfl _ _ _ _ h
  | default literal =>
    obtain ⟨value, hvalue, rfl⟩ := map_eq_ok_iff.mp h
    exact .literal (decodeDefault_ok hvalue)

theorem decoded_of_attempt {catalog : Catalog} {node : Node} {shape : Shape} {r : Resolvable}
    (hargs : ∀ a ∈ node.arguments, DecodesTo d a.value) (hshape : shape ∈ catalog.shapes)
    (hparams : shape.isBareCase = false) (h : d.attempt catalog.typeName node shape = .ok r) :
    Decoded d (.catalog catalog) r := by
  obtain ⟨bindings, children, hbindings, hchildren, rfl⟩ := Decoder.attempt_ok h
  have hall := decodeParams_ok (by simp [length_bindArguments hbindings]) hchildren
  refine .shape hshape hparams hall.length_eq fun param child hmem => ?_
  obtain ⟨reading, hreading, hdecode⟩ := List.forall₂_zip hall hmem
  obtain ⟨binding, hbinding, rfl⟩ := List.mem_map.mp hreading
  refine decoded_of_decodeParam (fun term hterm => ?_) hdecode
  subst hterm
  obtain ⟨a, ha, rfl⟩ := mem_of_bindArguments hbindings hbinding
  exact hargs a ha

theorem decoded_of_arguments {catalog : Catalog} {node : Node} {r : Resolvable}
    (hargs : ∀ a ∈ node.arguments, DecodesTo d a.value) (h : d.decode node catalog = .ok r) :
    Decoded d (.catalog catalog) r := by
  cases Decoder.outcome_of_decode h with
  | shape hshapes hbefore hparams hok =>
    exact decoded_of_attempt hargs
      (Catalog.mem_of_mem_candidates (by rw [hshapes]; simp)) hparams hok
  | case hfails hname hshapes hbefore hcase =>
    exact .case (Catalog.mem_of_mem_candidates (by rw [hshapes]; simp))
      (isBareCase_of_caseName? hcase)

theorem decodesTo (term : Term) : DecodesTo d term := by
  induction term with
  | literal literal =>
    intro rule label default r h
    obtain ⟨value, hvalue, rfl⟩ := map_eq_ok_iff.mp h
    exact .literal hvalue
  | reference name annotations =>
    intro rule label default r h
    exact decoded_of_bindAttribute h
  | call node hargs =>
    intro rule label default r h
    refine .of_core ?_
    rw [Decoder.decodeTerm_call] at h
    unfold decodeNested at h
    split at h
    · rename_i name hrule
      split at h
      · cases h
      · rename_i catalog hcatalog
        split at h
        · rename_i r' hr
          cases h
          rw [hrule]
          exact .node hcatalog (decoded_of_arguments hargs hr)
        · cases h
    · cases h
  | list items hitems =>
    intro rule label default r h
    refine .of_core ?_
    rw [Decoder.decodeTerm_list] at h
    unfold decodeList at h
    split at h
    · rename_i item hrule
      split at h
      · rename_i rs hrs
        cases h
        rw [hrule]
        refine .list fun r hr => ?_
        obtain ⟨term, hterm, hdecode⟩ := exists_left_of_forall₂ (decodeItems_ok hrs) hr
        exact hitems term hterm _ _ _ _ hdecode
      · cases h
    · cases h

/-- **The decoder's trees are built by the rules.** -/
theorem decoded_of_decode {catalog : Catalog} {node : Node} {r : Resolvable}
    (h : d.decode node catalog = .ok r) : Decoded d (.catalog catalog) r :=
  decoded_of_arguments (fun a _ => decodesTo a.value) h

/-! ## Registered catalogs -/

theorem Decoder.decodeType_ok {node : Node} {typeName : String} {r : Resolvable}
    (h : d.decodeType node typeName = .ok r) :
    ∃ catalog, d.registry.catalog? typeName = some catalog ∧ d.decode node catalog = .ok r := by
  unfold decodeType at h
  split at h
  · rename_i catalog hcatalog
    exact ⟨catalog, hcatalog, h⟩
  · cases h

theorem Decoder.decodeModifier_ok {node : Node} {r : Resolvable}
    (h : d.decodeModifier node = .ok r) :
    ∃ catalog, d.registry.modifier? node.tag = some catalog ∧ d.decode node catalog = .ok r := by
  unfold decodeModifier at h
  split at h
  · rename_i catalog hcatalog
    exact ⟨catalog, hcatalog, h⟩
  · cases h

end DeferredStyle
