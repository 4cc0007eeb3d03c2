import DeferredStyle.Proofs.Matching
import DeferredStyle.Proofs.Provenance
import DeferredStyle.Proofs.Reachability
import DeferredStyle.Proofs.Runs
import Mathlib.Logic.Relation

/-!
# What a failure blames

A shape fails with one error: that of binding, or that of the first parameter whose argument cannot
be decoded.  Where the argument is a call, or a list that holds one, the error carries the failures
of that call, and they are the ones it has by itself.

* `Decoder.ComesTo` — decoding a term under a rule comes down to one call in it.
* `Decoder.FaultOf` — the error of a shape; `Decoder.faultOf_of_attempt` — the decoder reports it.
* `Decoder.FailsAlone` — the failures of a call by itself.
* `nested_failures_localise` — every entry of a failure, and every failure inside it.
-/

set_option autoImplicit false

namespace DeferredStyle

/-! ## Calls and failures inside others -/

/-- The term is the call, or a list with an item that carries it. -/
inductive Term.Carries : Term → Node → Prop
  | call (node : Node) : Carries (.call node) node
  | item {items : List Term} {item : Term} {node : Node} (hitem : item ∈ items)
      (h : Carries item node) : Carries (.list items) node

/-- An argument of the node carries the other. -/
def Node.HasArgument (node child : Node) : Prop :=
  ∃ a ∈ node.arguments, a.value.Carries child

/-- The error of an entry carries the other failures. -/
def DecodeFailures.Nests (failures inner : DecodeFailures) : Prop :=
  ∃ entry ∈ failures.entries, ∃ label, entry.error = .nested label inner

namespace Decoder

variable (d : Decoder)

/-- Decoding the term under the rule comes down to decoding the call as the type `name`: the term is
the call, or a list under the rule of its items, of which the first that cannot be decoded comes
down to the call. -/
inductive ComesTo (label : String) (node : Node) (name : String) : Rule → Term → Prop
  | call {rule : Rule} (hrule : rule.core = .type name) : ComesTo label node name rule (.call node)
  | item {rule inner : Rule} {earlier later : List Term} {item : Term}
      (hrule : rule.core = .list inner)
      (hearlier : ∀ t ∈ earlier, ∃ r, d.decodeTerm t inner label none = .ok r)
      (hitem : ComesTo label node name inner item) :
      ComesTo label node name rule (.list (earlier ++ item :: later))

/-- The failures of the call by itself, decoded as the registered type `name`. -/
structure FailsAlone (node : Node) (name : String) (failures : DecodeFailures) : Prop where
  decode : ∃ catalog, d.registry.catalog? name = some catalog ∧
    d.decode node catalog = .error failures
  typeName : failures.typeName = name
  annotations : failures.annotations = node.annotations

/-- What the binding of a parameter is decoded to. -/
def decodeBinding (param : Param) (binding : Binding Term) : Except DecodeError Resolvable :=
  decodeParam d.registry param (binding.map d.decodeTerm)

/-- Failures that the argument of a parameter has: it comes down to a call, and they are the
failures that this call has by itself as the type that the parameter's rule names. -/
inductive Localises (param : Param) : Binding Term → String → DecodeFailures → Prop
  | intro {term : Term} {node : Node} {name : String} {failures : DecodeFailures}
      (hterm : d.ComesTo param.displayLabel node name param.rule term)
      (htarget : param.rule.target? = some name) (hfails : d.FailsAlone node name failures) :
      Localises param (.given term) param.displayLabel failures

/-- The error of a shape on the arguments of a node. -/
inductive FaultOf (node : Node) (shape : Shape) : DecodeError → Prop
  /-- The arguments cannot be bound. -/
  | binding {e : DecodeError} (herror : bindArguments shape.params node.arguments = .error e)
      (hplain : ∀ label failures, e ≠ .nested label failures) : FaultOf node shape e
  /-- They can, and of the parameters in order the first that cannot be decoded is `param`. -/
  | param {bindings earlier later : List (Binding Term)} {before after : List Param}
      {binding : Binding Term} {param : Param} {e : DecodeError}
      (hbindings : bindArguments shape.params node.arguments = .ok bindings)
      (hparams : shape.params = before ++ param :: after)
      (hsplit : bindings = earlier ++ binding :: later)
      (hearlier : List.Forall₂ (fun param binding => ∃ r, d.decodeBinding param binding = .ok r)
        before earlier)
      (herror : d.decodeBinding param binding = .error e)
      (hnested : ∀ label failures, e = .nested label failures →
        d.Localises param binding label failures) : FaultOf node shape e

end Decoder

/-- Every catalog of a type stands under its own name. -/
def Registry.KeepsNames (registry : Registry) : Prop :=
  ∀ name catalog, registry.catalog? name = some catalog → catalog.typeName = name

/-! ## Errors that carry no failures -/

section Plain

variable {registry : Registry} {rule : Rule} {label label' : String} {failures : DecodeFailures}

theorem decodeLeaf_ne_nested {leaf : Leaf} {literal : Literal} :
    decodeLeaf leaf rule label literal ≠ .error (.nested label' failures) := by
  unfold decodeLeaf
  split <;> nofun

theorem decodeLiteral_ne_nested {literal : Literal} :
    decodeLiteral registry rule label literal ≠ .error (.nested label' failures) := by
  unfold decodeLiteral
  split
  · nofun
  · unfold decodeCoreLiteral
    split
    · exact decodeLeaf_ne_nested
    · split
      · nofun
      · split
        · nofun
        · exact decodeLeaf_ne_nested
    · nofun

theorem decodeDefault_ne_nested {literal : Literal} :
    decodeDefault registry rule label literal ≠ .error (.nested label' failures) := by
  unfold decodeDefault
  split <;> nofun

theorem bindAttribute_ne_nested {default : Option Literal} {name : String} :
    bindAttribute registry rule label default name ≠ .error (.nested label' failures) := by
  unfold bindAttribute
  split
  · nofun
  · split
    · nofun
    · split
      · rename_i e he
        intro h
        cases h
        exact decodeDefault_ne_nested he
      · nofun

theorem bindArguments_ne_nested {V : Type} {params : List Param} {arguments : List (Argument V)} :
    bindArguments params arguments ≠ .error (.nested label' failures) := by
  intro h
  cases bindArguments_eq_error_iff.mp h with
  | label _ _ _ hfault => cases hfault

end Plain

/-! ## The first part that fails -/

namespace Decoder

variable {d : Decoder}

/-- Items cannot be decoded because of the first that cannot. -/
theorem decodeItems_error {items : List Term} {rule : Rule} {label : String} {e : DecodeError}
    (h : d.decodeItems items rule label = .error e) :
    ∃ earlier item later, items = earlier ++ item :: later ∧
      (∀ t ∈ earlier, ∃ r, d.decodeTerm t rule label none = .ok r) ∧
      d.decodeTerm item rule label none = .error e := by
  induction items with
  | nil => cases h
  | cons item items ih =>
    rw [decodeItems_cons] at h
    split at h
    · rename_i e' he
      cases h
      exact ⟨[], item, items, rfl, nofun, he⟩
    · rename_i r hr
      obtain ⟨earlier, first, later, rfl, hearlier, hfirst⟩ := ih (map_eq_error_iff.mp h)
      exact ⟨item :: earlier, first, later, rfl, List.forall_mem_cons.mpr ⟨⟨r, hr⟩, hearlier⟩,
        hfirst⟩

/-- Parameters cannot be decoded because of the first that cannot. -/
theorem decodeParams_error {params : List Param} {bindings : List (Binding Term)}
    {e : DecodeError}
    (h : decodeParams d.registry params (bindings.map (Binding.map d.decodeTerm)) = .error e) :
    ∃ before param after earlier binding later, params = before ++ param :: after ∧
      bindings = earlier ++ binding :: later ∧
      List.Forall₂ (fun param binding => ∃ r, d.decodeBinding param binding = .ok r)
        before earlier ∧
      d.decodeBinding param binding = .error e := by
  induction params generalizing bindings with
  | nil => cases h
  | cons param params ih =>
    obtain _ | ⟨binding, bindings⟩ := bindings
    · cases h
    rw [List.map_cons, decodeParams] at h
    split at h
    · rename_i e' he
      cases h
      exact ⟨[], param, params, [], binding, bindings, rfl, rfl, .nil, he⟩
    · rename_i r hr
      obtain ⟨before, first, after, earlier, own, later, rfl, rfl, hearlier, hfirst⟩ :=
        ih (map_eq_error_iff.mp h)
      exact ⟨param :: before, first, after, binding :: earlier, own, later, rfl, rfl,
        .cons ⟨r, hr⟩ hearlier, hfirst⟩

/-! ## Failures of calls -/

variable {label : String} {node : Node} {name : String} {rule : Rule} {term : Term}

theorem ComesTo.target? (h : d.ComesTo label node name rule term) : rule.target? = some name := by
  induction h with
  | call hrule => rw [← Rule.target?_core, hrule]; rfl
  | item hrule _ _ ih => rw [← Rule.target?_core, hrule]; exact ih

theorem ComesTo.carries (h : d.ComesTo label node name rule term) : term.Carries node := by
  induction h with
  | call _ => exact .call node
  | item _ _ _ ih => exact .item (by simp) ih

/-- **Failures that an error carries are those of one call in the term.** -/
theorem comesTo_of_nested {label' : String} {failures : DecodeFailures} {default : Option Literal}
    (h : d.decodeTerm term rule label default = .error (.nested label' failures)) :
    label' = label ∧ ∃ node name catalog, d.ComesTo label node name rule term ∧
      d.registry.catalog? name = some catalog ∧ d.decode node catalog = .error failures := by
  induction term generalizing rule default with
  | literal literal =>
    rw [decodeTerm_literal, map_eq_error_iff] at h
    exact absurd h decodeLiteral_ne_nested
  | reference name annotations =>
    rw [decodeTerm_reference] at h
    exact absurd h bindAttribute_ne_nested
  | call node _ =>
    rw [decodeTerm_call] at h
    unfold decodeNested at h
    split at h
    · rename_i name hrule
      split at h
      · cases h
      · rename_i catalog hcatalog
        split at h
        · cases h
        · rename_i inner hinner
          cases h
          exact ⟨rfl, node, name, catalog, .call hrule, hcatalog, hinner⟩
    · cases h
  | list items ih =>
    rw [decodeTerm_list] at h
    unfold decodeList at h
    split at h
    · rename_i inner hrule
      split at h
      · cases h
      · rename_i e he
        cases h
        obtain ⟨earlier, item, later, rfl, hearlier, hitem⟩ := decodeItems_error he
        obtain ⟨hlabel, node, name, catalog, hcomes, hfails⟩ := ih item (by simp) hitem
        exact ⟨hlabel, node, name, catalog, .item hrule hearlier hcomes, hfails⟩
    · cases h

theorem parts_of_decode_error {catalog : Catalog} {failures : DecodeFailures}
    (h : d.decode node catalog = .error failures) :
    failures.typeName = catalog.typeName ∧ failures.annotations = node.annotations := by
  cases outcome_of_decode h with
  | failure _ _ => exact ⟨rfl, rfl⟩

/-- Failures that the binding of a parameter has are those of one call in its argument. -/
theorem localises_of_decodeBinding (hnames : d.registry.KeepsNames) {param : Param}
    {binding : Binding Term} {failures : DecodeFailures}
    (h : d.decodeBinding param binding = .error (.nested label failures)) :
    d.Localises param binding label failures := by
  cases binding with
  | default literal => exact absurd (map_eq_error_iff.mp h) decodeDefault_ne_nested
  | given term =>
    obtain ⟨rfl, node, name, catalog, hcomes, hcatalog, hfails⟩ := comesTo_of_nested h
    obtain ⟨htypeName, hannotations⟩ := parts_of_decode_error hfails
    exact .intro hcomes hcomes.target?
      ⟨⟨catalog, hcatalog, hfails⟩, htypeName.trans (hnames name catalog hcatalog), hannotations⟩

/-- **A shape fails with its first error.** -/
theorem faultOf_of_attempt (hnames : d.registry.KeepsNames) {typeName : String} {shape : Shape}
    {e : DecodeError}
    (h : d.attempt typeName node shape = .error e) : d.FaultOf node shape e := by
  rw [d.attempt_eq] at h
  split at h
  · rename_i e' herror
    cases h
    exact .binding herror fun label failures heq => bindArguments_ne_nested (heq ▸ herror)
  · rename_i bindings hbindings
    obtain ⟨before, param, after, earlier, binding, later, hparams, hsplit, hearlier, herror⟩ :=
      decodeParams_error (map_eq_error_iff.mp h)
    refine .param hbindings hparams hsplit hearlier herror fun label failures heq => ?_
    subst heq
    exact localises_of_decodeBinding hnames herror

/-! ## Failures inside failures -/

/-- The failures that the error of a shape carries are those of a call in an argument. -/
theorem FaultOf.exists_argument {shape : Shape} {failures : DecodeFailures}
    (h : d.FaultOf node shape (.nested label failures)) :
    ∃ child name, node.HasArgument child ∧ d.FailsAlone child name failures := by
  cases h with
  | binding _ hplain => exact absurd rfl (hplain label failures)
  | param hbindings _ hsplit _ _ hnested =>
    cases hnested label failures rfl with
    | @intro term child name _ hterm _ hfails =>
      obtain ⟨a, ha, rfl⟩ := mem_of_bindArguments hbindings
        (show Binding.given term ∈ _ by rw [hsplit]; simp)
      exact ⟨child, name, ⟨a, ha, hterm.carries⟩, hfails⟩

/-- The entries of a failure: one for each shape with parameters, and those for the cases. -/
theorem entries_of_decode_error (hnames : d.registry.KeepsNames) {catalog : Catalog}
    {failures : DecodeFailures}
    (h : d.decode node catalog = .error failures) :
    ∃ entries caseEntries, failures.entries = entries ++ caseEntries ∧
      List.Forall₂ (fun shape entry => entry.shape = shape.label catalog.typeName ∧
          d.FaultOf node shape entry.error)
        ((catalog.candidates node.selector).filter (!·.isBareCase)) entries ∧
      CaseEntries node (catalog.candidates node.selector) caseEntries := by
  cases outcome_of_decode h with
  | failure hfails hcases =>
    refine ⟨_, _, rfl, hfails.imp fun shape entry hentry => ?_, hcases⟩
    exact ⟨hentry.1, faultOf_of_attempt hnames hentry.2⟩

theorem not_nested_of_mem_caseEntries {shapes : List Shape} {entries : List (Attempt DecodeError)}
    (h : CaseEntries node shapes entries) {entry : Attempt DecodeError} (hentry : entry ∈ entries)
    (failures : DecodeFailures) : entry.error ≠ .nested label failures := by
  cases h with
  | none _ => cases hentry
  | unnamed _ _ => rw [List.mem_singleton.mp hentry]; nofun
  | unknown _ _ _ => rw [List.mem_singleton.mp hentry]; nofun

/-- Failures one level inside those of a node are those of a call in an argument. -/
theorem exists_argument_of_nests (hnames : d.registry.KeepsNames) {catalog : Catalog}
    {failures inner : DecodeFailures} (h : d.decode node catalog = .error failures)
    (hinner : failures.Nests inner) :
    ∃ child name, node.HasArgument child ∧ d.FailsAlone child name inner := by
  obtain ⟨entry, hentry, label, herror⟩ := hinner
  obtain ⟨entries, caseEntries, hsplit, hentries, hcases⟩ := entries_of_decode_error hnames h
  rw [hsplit] at hentry
  rcases List.mem_append.mp hentry with hshape | hcase
  · obtain ⟨shape, -, -, hfault⟩ := exists_left_of_forall₂ hentries hshape
    rw [herror] at hfault
    exact hfault.exists_argument
  · exact absurd herror (not_nested_of_mem_caseEntries hcases hcase inner)

/-- **Failures at any depth are those of a call at some depth.** -/
theorem exists_descendant_of_nests (hnames : d.registry.KeepsNames) {catalog : Catalog}
    {failures inner : DecodeFailures} (h : d.decode node catalog = .error failures)
    (hinner : Relation.TransGen DecodeFailures.Nests failures inner) :
    ∃ child name, Relation.TransGen Node.HasArgument node child ∧
      d.FailsAlone child name inner := by
  induction hinner with
  | single hnests =>
    obtain ⟨child, name, hchild, hfails⟩ := exists_argument_of_nests hnames h hnests
    exact ⟨child, name, .single hchild, hfails⟩
  | tail _ hnests ih =>
    obtain ⟨child, _, hchild, ⟨⟨found, _, hdecode⟩, _, _⟩⟩ := ih
    obtain ⟨grandchild, name, hgrandchild, hfails⟩ :=
      exists_argument_of_nests hnames hdecode hnests
    exact ⟨grandchild, name, hchild.tail hgrandchild, hfails⟩

end Decoder

/-! ## Registries that a run leaves -/

/-- A run of registrations holds every catalog under its own name. -/
theorem keepsNames_run (platform : Platform) (steps : List Registration) :
    (Registry.run platform steps).KeepsNames := by
  intro name catalog h
  have hfind : (Registry.run platform steps).find? .type name = some catalog := h
  rw [Registry.find?_run] at hfind
  obtain ⟨source, hlast, rfl⟩ := Option.map_eq_some_iff.mp hfind
  obtain ⟨_, _, _, hname, _⟩ := Registration.last?_eq_some_iff.mp hlast
  exact hname

/-- **Failures say where the fault is.**  Where a node cannot be decoded against a catalog, each
shape with parameters has one entry, in order.  Its error is that of binding the arguments, or that
of the first parameter whose argument cannot be decoded; and where this error carries failures, they
are those that one call in the argument has by itself.  So all failures inside those of the node, at
any depth, are those that a call inside the node has by itself. -/
theorem nested_failures_localise (d : Decoder)
    (hrun : ∃ platform steps, d.registry = .run platform steps) (catalog : Catalog) (node : Node)
    (failures : DecodeFailures) (h : d.decode node catalog = .error failures) :
    (∃ entries caseEntries, failures.entries = entries ++ caseEntries ∧
      List.Forall₂ (fun shape entry => entry.shape = shape.label catalog.typeName ∧
          d.FaultOf node shape entry.error)
        ((catalog.candidates node.selector).filter (!·.isBareCase)) entries ∧
      CaseEntries node (catalog.candidates node.selector) caseEntries) ∧
    ∀ inner, Relation.TransGen DecodeFailures.Nests failures inner →
      ∃ child name, Relation.TransGen Node.HasArgument node child ∧
        d.FailsAlone child name inner := by
  obtain ⟨platform, steps, hregistry⟩ := hrun
  have hnames : d.registry.KeepsNames := hregistry ▸ keepsNames_run platform steps
  exact ⟨Decoder.entries_of_decode_error hnames h,
    fun inner hinner => Decoder.exists_descendant_of_nests hnames h hinner⟩

/-- The second item of a list under a parameter of a nested call is no case of its type. -/
theorem nested_failures_localise_stop :
    let stop : Catalog := ⟨"Stop", none, [.bareCase "on" (.constant .nil)]⟩
    let ramp : Catalog := ⟨"Ramp", none,
      [.enumCase "of" [.labeled "stops" (.list (.optional (.type "Stop")))] (.constant .nil)]⟩
    let fill : Catalog :=
      ⟨"Fill", none, [.enumCase "with" [.positional (.type "Ramp")] (.constant .nil)]⟩
    let d := (Registry.run .ios [⟨.type, stop⟩, ⟨.type, ramp⟩]).decoder
    let named (name : String) : Term := .call (Node.member (some name) [])
    let stops : Term := .list [named "on", .literal .nil, named "off"]
    let node := Node.member none [⟨none, .call (Node.member none [⟨some "stops", stops⟩])⟩]
    let inmost : DecodeFailures := ⟨"Stop", [⟨"off", .unknownCase "off" ["on"]⟩], .empty⟩
    let inner : DecodeFailures := ⟨"Ramp", [⟨".of(stops:)", .nested "stops" inmost⟩], .empty⟩
    let failures : DecodeFailures := ⟨"Fill", [⟨".with(_:)", .nested "_" inner⟩], .empty⟩
    d.decode node fill = .error failures ∧ DecodeFailures.Nests failures inner ∧
      DecodeFailures.Nests inner inmost ∧
      ∃ child name, Relation.TransGen Node.HasArgument node child ∧
        d.FailsAlone child name inmost := by
  intro stop ramp fill d named stops node inmost inner failures
  have hdecode : d.decode node fill = .error failures := by
    subst d
    cbv
  have houter : DecodeFailures.Nests failures inner := ⟨_, List.mem_cons_self, "_", rfl⟩
  have hinner : DecodeFailures.Nests inner inmost := ⟨_, List.mem_cons_self, "stops", rfl⟩
  have hlocal := nested_failures_localise d ⟨.ios, _, rfl⟩ fill node failures hdecode
  exact ⟨hdecode, houter, hinner, hlocal.2 inmost (.tail (.single houter) hinner)⟩

end DeferredStyle
