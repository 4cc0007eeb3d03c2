import DeferredStyle.Proofs.Registration
import DeferredStyle.Proofs.Simulation

/-!
# The catalogs that decoding reads

A rule names at most one type, whatever lists and optionals stand around it.  Decoding against a
catalog looks up the types that the catalog's parameters name, the types that those catalogs name,
and so on, and nothing else of the registry.

* `Rule.target?`, `Catalog.targets` — the types that a rule and a catalog name.
* `Registry.Reaches` — the least set of types that contains a catalog's targets and, with a type,
  the targets of its catalog.
* `Registry.AgreeOn` — two registries that hold the same catalogs on a set closed in this way.
* `decodeTerm_agreeOn` — terms are decoded alike under such registries.
* `decode_reachable` — decoding depends on reachable catalogs only, and so does registration.
-/

set_option autoImplicit false

namespace DeferredStyle

/-! ## The types that are named -/

/-- The type that a rule names. -/
def Rule.target? : Rule → Option String
  | .leaf _ => none
  | .type name => some name
  | .list item => item.target?
  | .optional inner => inner.target?

/-- The types that the parameters of a catalog's shapes name. -/
def Catalog.targets (catalog : Catalog) : List String :=
  catalog.shapes.flatMap fun shape => shape.params.filterMap fun param => param.rule.target?

/-- The types that decoding against a catalog can come to. -/
inductive Registry.Reaches (registry : Registry) (catalog : Catalog) : String → Prop
  | named {name : String} (h : name ∈ catalog.targets) : Reaches registry catalog name
  | through {member name : String} {found : Catalog} (hmember : Reaches registry catalog member)
      (hfound : registry.catalog? member = some found) (hname : name ∈ found.targets) :
      Reaches registry catalog name

theorem Rule.target?_core (rule : Rule) : rule.core.target? = rule.target? := by
  induction rule with
  | leaf leaf => rfl
  | type name => rfl
  | list item _ => rfl
  | optional inner ih => exact ih

theorem Catalog.mem_targets {catalog : Catalog} {shape : Shape} {param : Param} {name : String}
    (hshape : shape ∈ catalog.shapes) (hparam : param ∈ shape.params)
    (hname : param.rule.target? = some name) : name ∈ catalog.targets :=
  List.mem_flatMap.mpr ⟨shape, hshape, List.mem_filterMap.mpr ⟨param, hparam, hname⟩⟩

/-- A closed set that contains a catalog's targets contains what the catalog reaches. -/
theorem Registry.Reaches.mem_of_closed {registry : Registry} {catalog : Catalog} {name : String}
    (h : registry.Reaches catalog name) {names : List String}
    (htargets : ∀ target ∈ catalog.targets, target ∈ names)
    (hclosed : ∀ member ∈ names, ∀ found ∈ registry.catalog? member,
      ∀ target ∈ found.targets, target ∈ names) : name ∈ names := by
  induction h with
  | named hname => exact htargets _ hname
  | through _ hfound hname ih => exact hclosed _ ih _ hfound _ hname

/-! ## Agreeing registries -/

/-- Two registries hold the same catalogs for the types of a set, and these name only types of the
set. -/
structure Registry.AgreeOn (names : String → Prop) (registry registry' : Registry) : Prop where
  same : ∀ name, names name → registry.catalog? name = registry'.catalog? name
  closed : ∀ member, names member → ∀ found, registry.catalog? member = some found →
    ∀ target ∈ found.targets, names target

/-- The type that a rule names, if any, is in a set. -/
def Rule.TargetsIn (names : String → Prop) (rule : Rule) : Prop :=
  ∀ name, rule.target? = some name → names name

theorem Rule.TargetsIn.core {names : String → Prop} {rule : Rule} (h : rule.TargetsIn names) :
    rule.core.TargetsIn names := by
  intro name hname
  rw [Rule.target?_core] at hname
  exact h name hname

/-- Agreement on what one registry reaches from a catalog is agreement on a closed set. -/
theorem Registry.agreeOn_of_reaches {registry registry' : Registry} {catalog : Catalog}
    (h : ∀ name, registry.Reaches catalog name →
      registry.catalog? name = registry'.catalog? name) :
    AgreeOn (registry.Reaches catalog) registry registry' where
  same := h
  closed _ hmember _ hfound _ htarget := .through hmember hfound htarget

/-- Registries that agree on what one of them reaches reach the same types. -/
theorem Registry.reaches_iff {registry registry' : Registry} {catalog : Catalog}
    (h : ∀ name, registry.Reaches catalog name →
      registry.catalog? name = registry'.catalog? name) (name : String) :
    registry.Reaches catalog name ↔ registry'.Reaches catalog name := by
  constructor
  · intro hname
    induction hname with
    | named hname => exact .named hname
    | through hmember hfound hname ih =>
      have hfound' := (h _ hmember).symm.trans hfound
      exact .through ih hfound' hname
  · intro hname
    induction hname with
    | named hname => exact .named hname
    | through _ hfound' hname ih =>
      have hfound := (h _ ih).trans hfound'
      exact .through ih hfound hname

section Congruence

variable {names : String → Prop} {registry registry' : Registry} {rule : Rule}

/-! ## Literals and attributes -/

theorem decodeCoreLiteral_agreeOn (h : registry.AgreeOn names registry')
    (hrule : rule.TargetsIn names) (label : String) (literal : Literal) :
    decodeCoreLiteral registry rule label literal =
      decodeCoreLiteral registry' rule label literal := by
  cases rule with
  | leaf leaf => rfl
  | type name =>
    have hsame := h.same name (hrule name rfl)
    simp only [decodeCoreLiteral]
    rw [hsame]
  | list item => rfl
  | optional inner => rfl

theorem decodeLiteral_agreeOn (h : registry.AgreeOn names registry')
    (hrule : rule.TargetsIn names) (label : String) (literal : Literal) :
    decodeLiteral registry rule label literal = decodeLiteral registry' rule label literal := by
  unfold decodeLiteral
  split
  · rfl
  · exact decodeCoreLiteral_agreeOn h hrule.core _ _

theorem decodeDefault_agreeOn (h : registry.AgreeOn names registry')
    (hrule : rule.TargetsIn names) (label : String) (literal : Literal) :
    decodeDefault registry rule label literal = decodeDefault registry' rule label literal := by
  rw [decodeDefault, decodeDefault, decodeLiteral_agreeOn h hrule]

theorem attributeLeaf?_agreeOn (h : registry.AgreeOn names registry')
    (hrule : rule.TargetsIn names) :
    attributeLeaf? registry rule = attributeLeaf? registry' rule := by
  have hcore := hrule.core
  unfold attributeLeaf?
  cases hname : rule.core with
  | leaf leaf => rfl
  | type name =>
    have hsame := h.same name (hcore name (by rw [hname]; rfl))
    simp only [hsame]
  | list item => rfl
  | optional inner => rfl

theorem bindAttribute_agreeOn (h : registry.AgreeOn names registry')
    (hrule : rule.TargetsIn names) (label : String) (default : Option Literal) (name : String) :
    bindAttribute registry rule label default name =
      bindAttribute registry' rule label default name := by
  simp only [bindAttribute, attributeLeaf?_agreeOn h hrule, decodeDefault_agreeOn h hrule]

/-! ## Nodes and lists -/

/-- A nested node is decoded alike if it is against every catalog of the set. -/
theorem decodeNested_agreeOn (h : registry.AgreeOn names registry') (hrule : rule.TargetsIn names)
    {decode decode' : Catalog → Except DecodeFailures Resolvable}
    (hdecode : ∀ catalog, (∀ target ∈ catalog.targets, names target) →
      decode catalog = decode' catalog) (label : String) (found : Term) :
    decodeNested registry rule label found decode =
      decodeNested registry' rule label found decode' := by
  cases rule with
  | leaf leaf => rfl
  | type name =>
    have hname : names name := hrule name rfl
    simp only [decodeNested, ← h.same name hname]
    cases hcatalog : registry.catalog? name with
    | none => rfl
    | some catalog =>
      have hnode := hdecode catalog (h.closed name hname catalog hcatalog)
      simp only [hnode]
  | list item => rfl
  | optional inner => rfl

/-- A term that is decoded alike under every rule that names a type of the set, if any. -/
def DecodesEqually (names : String → Prop) (d d' : Decoder) (term : Term) : Prop :=
  ∀ rule label default, rule.TargetsIn names →
    d.decodeTerm term rule label default = d'.decodeTerm term rule label default

variable {folds : Bool}

theorem decodeItems_agreeOn {items : List Term}
    (hitems : ∀ item ∈ items, DecodesEqually names ⟨registry, folds⟩ ⟨registry', folds⟩ item)
    (hrule : rule.TargetsIn names) (label : String) :
    Decoder.decodeItems ⟨registry, folds⟩ items rule label =
      Decoder.decodeItems ⟨registry', folds⟩ items rule label := by
  induction items with
  | nil => rfl
  | cons item items ih =>
    have hitem := hitems item List.mem_cons_self rule label none hrule
    have hrest := ih fun i hi => hitems i (List.mem_cons_of_mem item hi)
    rw [Decoder.decodeItems_cons, Decoder.decodeItems_cons, hitem, hrest]

theorem decodeParam_agreeOn (h : registry.AgreeOn names registry') {param : Param}
    (hparam : param.rule.TargetsIn names) {binding : Binding Term}
    (hgiven : ∀ term, binding = .given term →
      DecodesEqually names ⟨registry, folds⟩ ⟨registry', folds⟩ term) :
    decodeParam registry param (binding.map (Decoder.decodeTerm ⟨registry, folds⟩)) =
      decodeParam registry' param (binding.map (Decoder.decodeTerm ⟨registry', folds⟩)) := by
  cases binding with
  | given term => exact hgiven term rfl _ _ _ hparam
  | default literal =>
    show (decodeDefault registry param.rule param.displayLabel literal).map Resolvable.constant =
      (decodeDefault registry' param.rule param.displayLabel literal).map Resolvable.constant
    rw [decodeDefault_agreeOn h hparam]

theorem decodeParams_agreeOn (h : registry.AgreeOn names registry') {params : List Param}
    (hparams : ∀ param ∈ params, param.rule.TargetsIn names) {bindings : List (Binding Term)}
    (hgiven : ∀ term, .given term ∈ bindings →
      DecodesEqually names ⟨registry, folds⟩ ⟨registry', folds⟩ term) :
    decodeParams registry params
        (bindings.map (Binding.map (Decoder.decodeTerm ⟨registry, folds⟩))) =
      decodeParams registry' params
        (bindings.map (Binding.map (Decoder.decodeTerm ⟨registry', folds⟩))) := by
  induction params generalizing bindings with
  | nil => rfl
  | cons param params ih =>
    cases bindings with
    | nil => rfl
    | cons binding bindings =>
      have hhead : ∀ term, binding = .given term →
          DecodesEqually names ⟨registry, folds⟩ ⟨registry', folds⟩ term :=
        fun term heq => hgiven term (heq ▸ List.mem_cons_self)
      have htail : ∀ term, .given term ∈ bindings →
          DecodesEqually names ⟨registry, folds⟩ ⟨registry', folds⟩ term :=
        fun term hterm => hgiven term (List.mem_cons_of_mem binding hterm)
      have hparam := decodeParam_agreeOn h (hparams param List.mem_cons_self) hhead
      have hrest := ih (fun p hp => hparams p (List.mem_cons_of_mem param hp)) htail
      simp only [List.map_cons, decodeParams]
      rw [hparam, hrest]

/-- A node whose arguments are decoded alike is decoded alike against a catalog that names types of
the set only. -/
theorem decode_agreeOn (h : registry.AgreeOn names registry') {node : Node}
    (hargs : ∀ a ∈ node.arguments,
      DecodesEqually names ⟨registry, folds⟩ ⟨registry', folds⟩ a.value)
    {catalog : Catalog} (hcatalog : ∀ target ∈ catalog.targets, names target) :
    Decoder.decode ⟨registry, folds⟩ node catalog =
      Decoder.decode ⟨registry', folds⟩ node catalog := by
  have hattempt : ∀ shape ∈ catalog.shapes,
      Decoder.attempt ⟨registry, folds⟩ catalog.typeName node shape =
        Decoder.attempt ⟨registry', folds⟩ catalog.typeName node shape := by
    intro shape hshape
    rw [Decoder.attempt_eq, Decoder.attempt_eq]
    cases hbindings : bindArguments shape.params node.arguments with
    | error e => rfl
    | ok bindings =>
      have hparams : ∀ param ∈ shape.params, param.rule.TargetsIn names :=
        fun param hparam name hname => hcatalog name (Catalog.mem_targets hshape hparam hname)
      have hgiven : ∀ term, .given term ∈ bindings →
          DecodesEqually names ⟨registry, folds⟩ ⟨registry', folds⟩ term := by
        intro term hterm
        obtain ⟨a, ha, rfl⟩ := mem_of_bindArguments hbindings hterm
        exact hargs a ha
      have hchildren := decodeParams_agreeOn h hparams hgiven
      simp only [hchildren]
  apply Related.eq
  refine Decoder.decode_related (E := Eq) rfl rfl (fun shape hshape _ => ?_) (fun _ _ _ => rfl)
    fun entries entries' cases hentries => ?_
  · rw [hattempt shape hshape]
    exact .refl (fun _ => rfl) (fun _ => rfl) _
  · rw [hentries.eq]

/-- **Terms are decoded alike** under registries that agree: by induction on the term.  The set is
closed, so that the catalog of a nested node names types of the set again. -/
theorem decodeTerm_agreeOn (h : registry.AgreeOn names registry') (term : Term) :
    DecodesEqually names ⟨registry, folds⟩ ⟨registry', folds⟩ term := by
  induction term with
  | literal literal =>
    intro rule label default hrule
    rw [Decoder.decodeTerm_literal, Decoder.decodeTerm_literal, decodeLiteral_agreeOn h hrule]
  | reference name annotations =>
    intro rule label default hrule
    exact bindAttribute_agreeOn h hrule label default name
  | list items ih =>
    intro rule label default hrule
    have hcore := hrule.core
    rw [Decoder.decodeTerm_list, Decoder.decodeTerm_list]
    unfold decodeList
    split
    · rename_i item hitem
      have htarget : item.TargetsIn names := by
        intro name hname
        apply hcore name
        rw [hitem]
        exact hname
      have hrest := decodeItems_agreeOn ih htarget label
      simp only [hrest]
    · rfl
  | call node ih =>
    intro rule label default hrule
    exact decodeNested_agreeOn h hrule.core (fun _ => decode_agreeOn h ih) label (.call node)

end Congruence

/-! ## Decoding -/

namespace Registry

variable {registry registry' : Registry} {folds : Bool}

theorem decode_of_agree_reaches {catalog : Catalog}
    (h : ∀ name, registry.Reaches catalog name →
      registry.catalog? name = registry'.catalog? name) (node : Node) :
    Decoder.decode ⟨registry, folds⟩ node catalog =
      Decoder.decode ⟨registry', folds⟩ node catalog := by
  have hagree := agreeOn_of_reaches h
  exact decode_agreeOn hagree (fun a _ => decodeTerm_agreeOn hagree a.value)
    fun _ htarget => .named htarget

/-- Registering a type is seen by the types that reach it. -/
theorem decodeType_register {added : Catalog} {typeName : String} (hne : typeName ≠ added.typeName)
    (hreaches : ∀ catalog, registry.catalog? typeName = some catalog →
      ¬ registry.Reaches catalog added.typeName) (node : Node) :
    Decoder.decodeType ⟨registry.register added, folds⟩ node typeName =
      Decoder.decodeType ⟨registry, folds⟩ node typeName := by
  have hcatalog : (registry.register added).catalog? typeName = registry.catalog? typeName := by
    rw [catalog?_register, if_neg hne]
  simp only [Decoder.decodeType, hcatalog]
  cases hfound : registry.catalog? typeName with
  | none => rfl
  | some catalog =>
    refine (decode_of_agree_reaches (fun name hname => ?_) node).symm
    have hname' : name ≠ added.typeName := by
      rintro rfl
      exact hreaches catalog hfound hname
    rw [catalog?_register, if_neg hname']

theorem decodeType_registerAllModifiers (catalogs : List Catalog) (node : Node)
    (typeName : String) :
    Decoder.decodeType ⟨registry.registerAllModifiers catalogs, folds⟩ node typeName =
      Decoder.decodeType ⟨registry, folds⟩ node typeName := by
  simp only [Decoder.decodeType, catalog?_registerAllModifiers]
  cases registry.catalog? typeName with
  | none => rfl
  | some catalog =>
    refine (decode_of_agree_reaches (fun name _ => ?_) node).symm
    rw [catalog?_registerAllModifiers]

theorem decodeModifier_of_agree_reaches {node : Node}
    (hmodifier : registry.modifier? node.tag = registry'.modifier? node.tag)
    (h : ∀ catalog, registry.modifier? node.tag = some catalog →
      ∀ name, registry.Reaches catalog name →
        registry.catalog? name = registry'.catalog? name) :
    Decoder.decodeModifier ⟨registry, folds⟩ node =
      Decoder.decodeModifier ⟨registry', folds⟩ node := by
  simp only [Decoder.decodeModifier, ← hmodifier]
  cases hfound : registry.modifier? node.tag with
  | none => rfl
  | some catalog => exact decode_of_agree_reaches (h catalog hfound) node

end Registry

/-- **Decoding depends on reachable catalogs only.**  Registries that agree on the types one of them
reaches from a catalog reach the same types and decode every node alike.  So registering a type is
not seen by other types that do not reach it, registering modifiers is seen by no type, and a
modifier depends on the registered modifiers through the catalog of its own tag. -/
theorem decode_reachable :
    (∀ (registry registry' : Registry) (catalog : Catalog),
      (∀ name, registry.Reaches catalog name →
        registry.catalog? name = registry'.catalog? name) →
      (∀ name, registry.Reaches catalog name ↔ registry'.Reaches catalog name) ∧
      ∀ (folds : Bool) (node : Node),
        Decoder.decode ⟨registry, folds⟩ node catalog =
          Decoder.decode ⟨registry', folds⟩ node catalog) ∧
    (∀ (registry : Registry) (added : Catalog) (typeName : String), typeName ≠ added.typeName →
      (∀ catalog, registry.catalog? typeName = some catalog →
        ¬ registry.Reaches catalog added.typeName) →
      ∀ (folds : Bool) (node : Node),
        Decoder.decodeType ⟨registry.register added, folds⟩ node typeName =
          Decoder.decodeType ⟨registry, folds⟩ node typeName) ∧
    (∀ (registry : Registry) (catalogs : List Catalog) (folds : Bool) (node : Node)
      (typeName : String),
      Decoder.decodeType ⟨registry.registerAllModifiers catalogs, folds⟩ node typeName =
        Decoder.decodeType ⟨registry, folds⟩ node typeName) ∧
    ∀ (registry registry' : Registry) (node : Node),
      registry.modifier? node.tag = registry'.modifier? node.tag →
      (∀ catalog, registry.modifier? node.tag = some catalog →
        ∀ name, registry.Reaches catalog name →
          registry.catalog? name = registry'.catalog? name) →
      ∀ folds : Bool,
        Decoder.decodeModifier ⟨registry, folds⟩ node =
          Decoder.decodeModifier ⟨registry', folds⟩ node := by
  refine ⟨?_, ?_, ?_, ?_⟩
  · intro registry registry' catalog h
    refine ⟨Registry.reaches_iff h, ?_⟩
    intro folds node
    exact Registry.decode_of_agree_reaches h node
  · intro registry added typeName hne hreaches folds node
    exact Registry.decodeType_register hne hreaches node
  · intro registry catalogs folds node typeName
    exact Registry.decodeType_registerAllModifiers catalogs node typeName
  · intro registry registry' node hmodifier h folds
    exact Registry.decodeModifier_of_agree_reaches hmodifier h

/-- On macOS, a paint does not reach fonts: registering a type of fonts anew changes how a font is
decoded, but not how a gradient is.  A font weight is decoded alike where it is the only
modifier. -/
theorem decode_reachable_macos :
    let registry := Registry.standard .macos
    let font : Catalog := ⟨"Font", none, [.bareCase "mono" (.constant .nil)]⟩
    let fewer := ((Registry.empty .macos).register Vocabulary.fontWeight).registerModifier
      (Vocabulary.single "fontWeight" (.type "FontWeight")
        (Vocabulary.ofValue FontWeight .fontWeight))
    let mono := Node.member (some "mono") []
    let gradient := Node.member (some "gradient")
      [⟨some "stops", .list [.literal (.string "#102030"), .call (Node.member (some "red") [])]⟩]
    let bold : Node := ⟨"fontWeight", .empty, none, [⟨none, .literal (.string "bold")⟩]⟩
    ((registry.register font).decoder.decodeType mono "Font").isOk = true ∧
      (registry.decoder.decodeType mono "Font").isOk = false ∧
      (registry.decoder.decodeType gradient "Paint").isOk = true ∧
      (registry.register font).decoder.decodeType gradient "Paint" =
        registry.decoder.decodeType gradient "Paint" ∧
      (∀ catalog, registry.catalog? "Paint" = some catalog →
        (registry.register font).decoder.decode gradient catalog =
          registry.decoder.decode gradient catalog) ∧
      (registry.decoder.decodeModifier bold).isOk = true ∧
      registry.decoder.decodeModifier bold = fewer.decoder.decodeModifier bold := by
  intro registry font fewer mono gradient bold
  have hpaint : ∀ catalog, registry.catalog? "Paint" = some catalog →
      ∀ name, registry.Reaches catalog name → name ∈ ["Paint", "Color"] := by
    have hclosed : ∀ member ∈ ["Paint", "Color"], ∀ found ∈ registry.catalog? member,
        ∀ target ∈ found.targets, target ∈ ["Paint", "Color"] := by decide +kernel
    intro catalog hcatalog name hname
    exact hname.mem_of_closed (hclosed "Paint" List.mem_cons_self catalog hcatalog) hclosed
  have hfont : ∀ catalog, registry.catalog? "Paint" = some catalog →
      ¬ registry.Reaches catalog "Font" := by
    intro catalog hcatalog hreaches
    exact absurd (hpaint catalog hcatalog "Font" hreaches) (by decide)
  have hagree : ∀ catalog, registry.catalog? "Paint" = some catalog →
      ∀ name, registry.Reaches catalog name →
        registry.catalog? name = (registry.register font).catalog? name := by
    intro catalog hcatalog name hname
    have hne : name ≠ "Font" := fun heq => hfont catalog hcatalog (heq ▸ hname)
    rw [Registry.catalog?_register, if_neg hne]
  have hweight : ∀ catalog, registry.modifier? "fontWeight" = some catalog →
      ∀ name, registry.Reaches catalog name → registry.catalog? name = fewer.catalog? name := by
    have hclosed : ∀ member ∈ ["FontWeight"], ∀ found ∈ registry.catalog? member,
        ∀ target ∈ found.targets, target ∈ ["FontWeight"] := by decide +kernel
    have htargets : ∀ catalog ∈ registry.modifier? "fontWeight",
        ∀ target ∈ catalog.targets, target ∈ ["FontWeight"] := by decide +kernel
    intro catalog hcatalog name hname
    have hmem := hname.mem_of_closed (htargets catalog hcatalog) hclosed
    rw [List.mem_singleton.mp hmem]
    rfl
  refine ⟨by decide +kernel, by decide +kernel, by decide +kernel, ?_, ?_, by decide +kernel, ?_⟩
  · exact decode_reachable.2.1 registry font "Paint" (by decide) hfont true gradient
  · intro catalog hcatalog
    exact ((decode_reachable.1 _ _ catalog (hagree catalog hcatalog)).2 true gradient).symm
  · exact decode_reachable.2.2.2 registry fewer bold rfl hweight true

end DeferredStyle
