import DeferredStyle.Proofs.Demands
import Mathlib.Logic.Relation

/-!
# Where resolution fails

A decoded tree of the standard vocabulary fails exactly if a faulty tree can be reached from it
through required children: a reference without a default whose attribute is missing or rejected, a
shape whose gate does not let it pass, or a gradient without stops.  Its error is that of its own
gate, or else that of its leftmost failing required child, or else its own.  A failing child that is
not required is taken for nil.

* `Resolvable.Within` — the trees that a tree is made of.
* `Decoder.Takes`, `Demands`, `Requires` — the required children of shapes and lists.
* `Fault`, `FailsWith` — what fails by itself, and what fails with a child.
* `failure_locality` — the failures of decoded trees.
-/

set_option autoImplicit false

namespace DeferredStyle

open Vocabulary

/-! ## Parts of trees -/

namespace Resolvable

/-- The tree is deferred, with this child. -/
def HasChild (r child : Resolvable) : Prop :=
  ∃ deferred, r = .deferred deferred ∧ child ∈ deferred.children

/-- The second tree is the first or lies somewhere below it. -/
def Within : Resolvable → Resolvable → Prop :=
  Relation.ReflTransGen HasChild

end Resolvable

/-- What is decoded against a catalog is decoded against a registered one. -/
def Expected.Registered (registry : Registry) : Expected → Prop
  | .rule _ => True
  | .catalog c => registry.Registers c

/-- The shape stands in the registered catalog of the name, and the children were decoded by the
rules of its parameters. -/
structure Decoder.Takes (d : Decoder) (typeName : String) (shape : Shape)
    (children : List Resolvable) : Prop where
  registered : ∃ catalog, d.registry.Registers catalog ∧ catalog.typeName = typeName ∧
    shape ∈ catalog.shapes
  decoded : List.Forall₂ (fun param child => Decoded d (.rule param.rule) child) shape.params
    children

/-- The required children of a deferred tree: the arguments of the parameters that are not
optional, and all items of a list. -/
inductive Demands (d : Decoder) : Resolvable → List Resolvable → Prop
  | shape {typeName : String} {shape : Shape} {children : List Resolvable}
      (h : d.Takes typeName shape children) :
      Demands d (deferShape (shape.label typeName) shape children) (required shape.params children)
  | list {item : Rule} {items : List Resolvable} (h : ∀ r ∈ items, Decoded d (.rule item) r) :
      Demands d (.deferred ⟨(Rule.list item).text, .list, none, none, items⟩) items

/-- The child is one of the required children of the tree. -/
def Requires (d : Decoder) (r child : Resolvable) : Prop :=
  ∃ children, Demands d r children ∧ child ∈ children

/-! ## Failures -/

/-- The gate of a shape without a fallback does not let it pass. -/
inductive Barred (environment : Environment) : Resolvable → ResolveError → Prop
  | gate {label : String} {builder : Builder} {gate : RuntimeGate} {children : List Resolvable}
      {version : Version} (hcheck : gate.check environment = .error version) :
      Barred environment (.deferred ⟨label, builder, none, some gate, children⟩)
        (.unsupportedOnRuntime label environment.platform version environment.runtimeVersion)

/-- The tree fails by itself. -/
inductive Fault (context : Context) : Resolvable → ResolveError → Prop
  | missing {binding : AttributeBinding} (hdefault : binding.default = none)
      (hattribute : context.attribute? binding.name = none) :
      Fault context (.bound binding)
        (.missingOrInvalidAttribute binding.name "attribute is not set")
  | rejected {binding : AttributeBinding} (hdefault : binding.default = none) {literal : Literal}
      (hattribute : context.attribute? binding.name = some literal) {reason : String}
      (hreason : binding.decoder.decodeAttribute literal = .error reason) :
      Fault context (.bound binding) (.missingOrInvalidAttribute binding.name reason)
  | gate {r : Resolvable} {e : ResolveError} (h : Barred context.environment r e) :
      Fault context r e
  | gradient {stops : Resolvable} (hstops : stops.resolve context = .ok (.list [])) :
      Fault context
        (.deferred ⟨".gradient(stops:)", Vocabulary.gradient, none, none, [stops]⟩)
        (.invalidValue ".gradient(stops:)" "a gradient needs at least one stop")

/-- The tree fails by itself, or with the leftmost of its failing required children. -/
inductive FailsWith (d : Decoder) (context : Context) : Resolvable → ResolveError → Prop
  | fault {r : Resolvable} {e : ResolveError} (h : Fault context r e) : FailsWith d context r e
  | child {r child : Resolvable} {before after : List Resolvable} {e : ResolveError}
      (hgate : ∀ e', ¬Barred context.environment r e')
      (hdemands : Demands d r (before ++ child :: after))
      (hbefore : ∀ b ∈ before, ∃ value, b.resolve context = .ok value)
      (hchild : FailsWith d context child e) : FailsWith d context r e

variable {d : Decoder} {platform : Platform} {context : Context} {r child : Resolvable}
  {children : List Resolvable} {e : ResolveError}

/-! ## Decoded trees -/

/-- What a decoded tree looks like at its root. -/
inductive Built (d : Decoder) : Resolvable → Prop
  | constant (value : Value) : Built d (.constant value)
  | bound (binding : AttributeBinding) : Built d (.bound binding)
  | list {item : Rule} {items : List Resolvable} (h : ∀ r ∈ items, Decoded d (.rule item) r) :
      Built d (.deferred ⟨(Rule.list item).text, .list, none, none, items⟩)
  | shape {typeName : String} {shape : Shape} {children : List Resolvable}
      (h : d.Takes typeName shape children) :
      Built d (deferShape (shape.label typeName) shape children)

theorem built_finishShape {folds : Bool} {typeName : String} {shape : Shape}
    (h : d.Takes typeName shape children) :
    Built d (finishShape folds (shape.label typeName) shape children) := by
  rcases finishShape_eq folds (shape.label typeName) shape children with
    ⟨-, value, -, heq⟩ | ⟨-, heq⟩
  · rw [heq]
    exact .constant value
  · rw [heq]
    exact .shape h

section Standard

variable (hstandard : d.registry = .standard platform)

include hstandard

theorem built_of_decoded {expected : Expected} (h : Decoded d expected r)
    (hregistered : expected.Registered d.registry) : Built d r := by
  induction h with
  | literal _ => exact .constant _
  | reference _ _ => exact .bound _
  | optional _ ih => exact ih hregistered
  | node hcatalog _ ih => exact ih (.inl ⟨_, hcatalog⟩)
  | list hitems _ =>
    rename_i item items _
    rcases finishList_eq d.folds (.list item) items with ⟨-, values, -, heq⟩ | ⟨-, heq⟩
    · rw [heq]
      exact .constant _
    · rw [heq]
      exact .list hitems
  | shape hshape _ hlength hchildren _ =>
    refine built_finishShape ⟨⟨_, hregistered, rfl, hshape⟩, ?_⟩
    exact List.forall₂_iff_zip.mpr ⟨hlength, fun hmem => hchildren _ _ hmem⟩
  | case hcase hparams =>
    rw [Expected.Registered, hstandard] at hregistered
    have hshape := (Registry.hasShape_of_registers hregistered _ hcase).1
    refine built_finishShape ⟨⟨_, hstandard ▸ hregistered, rfl, hcase⟩, ?_⟩
    rw [hshape.params_of_isBareCase hparams]
    exact .nil

theorem Built.of_hasChild (h : Built d r) (hchild : r.HasChild child) : Built d child := by
  obtain ⟨deferred, heq, hmem⟩ := hchild
  cases h with
  | constant value => cases heq
  | bound binding => cases heq
  | list hitems =>
    cases heq
    exact built_of_decoded hstandard (hitems child hmem) trivial
  | shape htakes =>
    cases heq
    obtain ⟨param, -, hdecoded⟩ := exists_left_of_forall₂ htakes.decoded hmem
    exact built_of_decoded hstandard hdecoded trivial

theorem Built.within {s : Resolvable} (h : Built d r) (hwithin : r.Within s) : Built d s := by
  induction hwithin with
  | refl => exact h
  | tail _ hchild ih => exact ih.of_hasChild hstandard hchild

theorem Decoder.Takes.hasShape {typeName : String} {shape : Shape}
    (h : d.Takes typeName shape children) : HasShape typeName shape := by
  obtain ⟨catalog, hregistered, rfl, hshape⟩ := h.registered
  rw [hstandard] at hregistered
  exact (Registry.hasShape_of_registers hregistered shape hshape).1

/-- The results of the children fit the parameters, in every context. -/
theorem Decoder.Takes.fits {typeName : String} {shape : Shape}
    (h : d.Takes typeName shape children) (context : Context) :
    Fits Typed Foreseen shape.params (children.map (·.resolve context)) := by
  rw [Fits, List.forall₂_map_right_iff]
  refine h.decoded.imp fun param child hchild => ?_
  exact hchild.meets (hstandard ▸ Registry.standard_registry_sound platform) context

end Standard

/-! ## Required children -/

theorem Demands.hasChild (h : Demands d r children) (hmem : child ∈ children) :
    r.HasChild child := by
  cases h with
  | shape htakes =>
    obtain ⟨param, hzip, -⟩ := mem_required_iff.mp hmem
    exact ⟨_, rfl, (List.of_mem_zip hzip).2⟩
  | list _ => exact ⟨_, rfl, hmem⟩

/-- A deferred tree has required children. -/
theorem Built.exists_demands {deferred : Deferred Resolvable} (h : Built d (.deferred deferred)) :
    ∃ children, Demands d (.deferred deferred) children := by
  generalize hr : Resolvable.deferred deferred = r at h
  cases h with
  | constant value => cases hr
  | bound binding => cases hr
  | list hitems => exact ⟨_, .list hitems⟩
  | shape htakes => exact ⟨_, .shape htakes⟩

/-! ## Faults -/

theorem Barred.resolve (h : Barred context.environment r e) : r.resolve context = .error e := by
  cases h with
  | gate hcheck =>
    rw [Resolvable.resolve_deferred]
    simp only [selectBuilder, hcheck]

/-- What fails by itself fails. -/
theorem Fault.resolve (h : Fault context r e) : r.resolve context = .error e := by
  cases h with
  | missing hdefault hattribute =>
    simp only [Resolvable.resolve, AttributeBinding.resolve, AttributeBinding.decode, hattribute,
      hdefault]
  | rejected hdefault hattribute hreason =>
    simp only [Resolvable.resolve, AttributeBinding.resolve, AttributeBinding.decode, hattribute,
      hreason, hdefault]
  | gate hbarred => exact hbarred.resolve
  | gradient hstops =>
    rw [Resolvable.resolve_deferred, List.map_singleton, hstops]
    rfl

/-- A reference fails only by itself. -/
theorem fault_of_resolve_bound {binding : AttributeBinding}
    (h : (Resolvable.bound binding).resolve context = .error e) :
    Fault context (.bound binding) e := by
  change binding.resolve context = .error e at h
  unfold AttributeBinding.resolve at h
  split at h
  · cases h
  · rename_i reason hreason
    split at h
    · cases h
    · rename_i hdefault
      cases h
      unfold AttributeBinding.decode at hreason
      split at hreason
      · rename_i literal hattribute
        exact .rejected hdefault hattribute hreason
      · rename_i hattribute
        cases hreason
        exact .missing hdefault hattribute

/-- A shape that is not barred is built. -/
theorem exists_selectBuilder {label : String} {builder : Builder} {fallback : Option Builder}
    {gate : Option RuntimeGate} {environment : Environment}
    (h : ∀ e, ¬Barred environment (.deferred ⟨label, builder, fallback, gate, children⟩) e) :
    ∃ b, selectBuilder label builder fallback gate environment = .ok b ∧
      (b = builder ∨ fallback = some b) := by
  cases gate with
  | none => exact ⟨builder, rfl, .inl rfl⟩
  | some gate =>
    cases hcheck : gate.check environment with
    | ok _ => exact ⟨builder, by simp only [selectBuilder, hcheck], .inl rfl⟩
    | error version =>
      cases fallback with
      | none => exact absurd (.gate hcheck) (h _)
      | some b => exact ⟨b, by simp only [selectBuilder, hcheck], .inr rfl⟩

/-! ## Deferred trees -/

section Standard

variable (hstandard : d.registry = .standard platform)

include hstandard

theorem failure?_deferShape {typeName : String} {shape : Shape} (h : d.Takes typeName shape children)
    (hfault : ∀ e, ¬Fault context (deferShape (shape.label typeName) shape children) e) :
    failure? ((deferShape (shape.label typeName) shape children).resolve context) =
      (required shape.params children).findSome? fun c => failure? (c.resolve context) := by
  obtain ⟨b, hselect, hb⟩ := exists_selectBuilder fun e hbarred => hfault e (.gate hbarred)
  have hfits := h.fits hstandard context
  rcases (h.hasShape hstandard).propagates with hpropagates | ⟨rfl, rfl⟩
  · have hbuilder : b.Propagates shape.params := by
      rcases hb with rfl | hb
      · exact hpropagates.builder
      · exact hpropagates.fallback b hb
    rw [deferShape, Resolvable.resolve_deferred, hselect]
    simp only
    rw [hbuilder _ _ _ hfits, required_map, List.findSome?_map]
    rfl
  · -- a gradient that is not at fault has stops
    obtain ⟨stops, rfl⟩ := List.length_eq_one_iff.mp h.decoded.length_eq.symm
    have hstops : stops.resolve context ≠ .ok (.list []) := fun hempty =>
      hfault _ (.gradient hempty)
    rcases hfits with _ | ⟨hmeets, -⟩
    rw [deferShape, Resolvable.resolve_deferred]
    refine (gradient_failure? hmeets hstops).trans ?_
    change _ = [stops].findSome? fun c => failure? (c.resolve context)
    cases hresult : failure? (stops.resolve context) <;> simp [hresult]

/-- **A deferred tree that is not at fault fails with its leftmost required child.** -/
theorem Demands.failure?_resolve (h : Demands d r children) (context : Context)
    (hfault : ∀ e, ¬Fault context r e) :
    failure? (r.resolve context) = children.findSome? fun c => failure? (c.resolve context) := by
  cases h with
  | shape htakes => exact failure?_deferShape hstandard htakes hfault
  | list _ =>
    rw [Resolvable.resolve_deferred]
    change failure? ((Args.allOf _).map Value.list) = _
    rw [failure?_map, failure?_allOf, List.findSome?_map]
    rfl

/-- A tree fails with a required child that fails. -/
theorem Requires.fails (h : Requires d r child) (hchild : child.resolve context = .error e) :
    ∃ e', r.resolve context = .error e' := by
  obtain ⟨children, hdemands, hmem⟩ := h
  by_cases hfault : ∃ e', Fault context r e'
  · obtain ⟨e', hfault⟩ := hfault
    exact ⟨e', hfault.resolve⟩
  · have hfailure := hdemands.failure?_resolve hstandard context (not_exists.mp hfault)
    cases hresult : r.resolve context with
    | error e' => exact ⟨e', rfl⟩
    | ok value =>
      rw [hresult] at hfailure
      have hnone := List.findSome?_eq_none_iff.mp hfailure.symm child hmem
      rw [hchild] at hnone
      cases hnone

/-! ## The error of a tree -/

theorem failsWith_of_resolve (h : Built d r) (hresolve : r.resolve context = .error e) :
    FailsWith d context r e := by
  induction r generalizing e with
  | constant value => cases hresolve
  | bound binding => exact .fault (fault_of_resolve_bound hresolve)
  | deferred label builder fallback gate cs ih =>
    obtain ⟨children, hdemands⟩ := h.exists_demands
    by_cases hfault : ∃ e', Fault context (.deferred ⟨label, builder, fallback, gate, cs⟩) e'
    · obtain ⟨e', hfault⟩ := hfault
      cases hfault.resolve.symm.trans hresolve
      exact .fault hfault
    · have hfailure := hdemands.failure?_resolve hstandard context (not_exists.mp hfault)
      rw [hresolve] at hfailure
      obtain ⟨before, child, after, rfl, hchild, hbefore⟩ :=
        List.findSome?_eq_some_iff.mp hfailure.symm
      have hhas : Resolvable.HasChild (.deferred ⟨label, builder, fallback, gate, cs⟩) child :=
        hdemands.hasChild (by simp)
      refine .child (fun e' hbarred => hfault ⟨e', .gate hbarred⟩) hdemands
        (fun b hb => failure?_eq_none_iff.mp (hbefore b hb)) ?_
      refine ih child ?_ (h.of_hasChild hstandard hhas) (failure?_eq_some_iff.mp hchild)
      obtain ⟨deferred, heq, hmem⟩ := hhas
      cases heq
      exact hmem

theorem FailsWith.resolve (h : FailsWith d context r e) : r.resolve context = .error e := by
  induction h with
  | fault hfault => exact hfault.resolve
  | child hgate hdemands hbefore _ ih =>
    rename_i r child before after e _
    have hhas : r.HasChild child := hdemands.hasChild (by simp)
    have hfault : ∀ e', ¬Fault context r e' := by
      intro e' hfault
      cases hfault with
      | missing _ _ => obtain ⟨_, heq, _⟩ := hhas; cases heq
      | rejected _ _ _ => obtain ⟨_, heq, _⟩ := hhas; cases heq
      | gate hbarred => exact hgate e' hbarred
      | gradient hstops =>
        -- the only child of such a gradient does not fail
        obtain ⟨deferred, heq, hmem⟩ := hhas
        cases heq
        rw [List.mem_singleton.mp hmem, hstops] at ih
        cases ih
    refine failure?_eq_some_iff.mp ((hdemands.failure?_resolve hstandard context hfault).trans ?_)
    refine List.findSome?_eq_some_iff.mpr ⟨before, child, after, rfl, ?_, fun b hb => ?_⟩
    · rw [ih]
      rfl
    · obtain ⟨value, hvalue⟩ := hbefore b hb
      rw [hvalue]
      rfl

/-! ## What a failing tree reaches -/

omit hstandard in
theorem FailsWith.exists_fault (h : FailsWith d context r e) :
    ∃ t e', Relation.ReflTransGen (Requires d) r t ∧ Fault context t e' := by
  induction h with
  | fault hfault => exact ⟨_, _, .refl, hfault⟩
  | child _ hdemands _ _ ih =>
    obtain ⟨t, e', hreaches, hfault⟩ := ih
    exact ⟨t, e', .head ⟨_, hdemands, by simp⟩ hreaches, hfault⟩

theorem fails_of_exists_fault {t : Resolvable} (h : Relation.ReflTransGen (Requires d) r t)
    (hfault : Fault context t e) : ∃ e', r.resolve context = .error e' := by
  induction h using Relation.ReflTransGen.head_induction_on with
  | refl => exact ⟨e, hfault.resolve⟩
  | head hrequires _ ih =>
    obtain ⟨e', hchild⟩ := ih
    exact hrequires.fails hstandard hchild

/-! ## Optional children -/

/-- The failure of an optional child is taken for nil. -/
theorem Decoder.Takes.resolve_set_nil {typeName : String} {shape : Shape}
    (h : d.Takes typeName shape children) {index : Nat} {param : Param}
    (hparam : shape.params[index]? = some param) (hoptional : param.rule.isOptional = true)
    (hchild : children[index]? = some child) (herror : child.resolve context = .error e) :
    (deferShape (shape.label typeName) shape children).resolve context =
        (deferShape (shape.label typeName) shape
          (children.set index (.constant .nil))).resolve context ∧
      ∀ value, (deferShape (shape.label typeName) shape children).resolve context = .ok value →
        value.Lacks index := by
  rw [deferShape, deferShape, Resolvable.resolve_deferred, Resolvable.resolve_deferred]
  rcases selectBuilder_cases (shape.label typeName) shape.builder shape.fallback
      shape.availability.runtimeGate context.environment with
    ⟨b, hselect, hb⟩ | ⟨-, -, version, hselect⟩
  · have hignores : b.IgnoresOptional shape.params := by
      rcases hb with rfl | hb
      · exact (h.hasShape hstandard).ignoresOptional.1
      · exact (h.hasShape hstandard).ignoresOptional.2 b hb
    rw [hselect, List.map_set]
    refine hignores _ _ _ index param e hparam hoptional ?_ ?_
    · rw [List.length_map, h.decoded.length_eq]
    · rw [List.getElem?_map, hchild, Option.map_some, herror]
  · rw [hselect]
    exact ⟨rfl, fun value hvalue => by cases hvalue⟩

end Standard

/-! ## Decoded nodes -/

theorem built_of_decodeNode {folds : Bool} {node : Node}
    (h : (∃ typeName, (⟨.standard platform, folds⟩ : Decoder).decodeType node typeName = .ok r) ∨
      (⟨.standard platform, folds⟩ : Decoder).decodeModifier node = .ok r) :
    Built ⟨.standard platform, folds⟩ r := by
  rcases h with ⟨typeName, h⟩ | h
  · obtain ⟨catalog, hcatalog, hdecode⟩ := Decoder.decodeType_ok h
    exact built_of_decoded rfl (decoded_of_decode hdecode) (.inl ⟨typeName, hcatalog⟩)
  · obtain ⟨catalog, hcatalog, hdecode⟩ := Decoder.decodeModifier_ok h
    exact built_of_decoded rfl (decoded_of_decode hdecode) (.inr ⟨node.tag, hcatalog⟩)

/-- **Failures are local.**  Let `s` be any part of a decoded tree, such as the tree itself.  It
fails if and only if a faulty tree can be reached from it through required children; its error is
that of its gate, or else that of its leftmost failing required child, or else its own; and it takes
the failure of an optional argument for nil, which leaves the argument's field empty. -/
theorem failure_locality (platform : Platform) (folds : Bool) (node : Node) (r : Resolvable)
    (context : Context)
    (hdecode :
      (∃ typeName, (⟨.standard platform, folds⟩ : Decoder).decodeType node typeName = .ok r) ∨
        (⟨.standard platform, folds⟩ : Decoder).decodeModifier node = .ok r)
    (s : Resolvable) (hs : r.Within s) :
    let d : Decoder := ⟨.standard platform, folds⟩
    ((∃ e, s.resolve context = .error e) ↔
      ∃ t e, Relation.ReflTransGen (Requires d) s t ∧ Fault context t e) ∧
    (∀ e, s.resolve context = .error e ↔ FailsWith d context s e) ∧
    ∀ typeName shape children, d.Takes typeName shape children →
      s = deferShape (shape.label typeName) shape children →
      ∀ index param child e, shape.params[index]? = some param → param.rule.isOptional = true →
        children[index]? = some child → child.resolve context = .error e →
        s.resolve context =
            (deferShape (shape.label typeName) shape
              (children.set index (.constant .nil))).resolve context ∧
          ∀ value, s.resolve context = .ok value → value.Lacks index := by
  intro d
  have hstandard : d.registry = .standard platform := rfl
  have hbuilt : Built d s := (built_of_decodeNode hdecode).within hstandard hs
  have hfails (e : ResolveError) (h : s.resolve context = .error e) : FailsWith d context s e :=
    failsWith_of_resolve hstandard hbuilt h
  refine ⟨⟨?_, ?_⟩, fun e => ⟨hfails e, FailsWith.resolve hstandard⟩, ?_⟩
  · rintro ⟨e, h⟩
    exact (hfails e h).exists_fault
  · rintro ⟨t, e, hreaches, hfault⟩
    exact fails_of_exists_fault hstandard hreaches hfault
  · rintro typeName shape children htakes rfl index param child e hparam hoptional hchild herror
    exact htakes.resolve_set_nil hstandard hparam hoptional hchild herror

/-- A background with an attribute among the stops of its gradient, on an element without
attributes. -/
theorem failure_locality_background :
    let decoder := (Registry.standard .ios).decoder
    let gradient : Node := Node.member (some "gradient")
      [⟨some "stops", .list [.literal (.string "red"), .reference "tint" .empty]⟩]
    let background : Node := ⟨"background", .empty, none, [⟨none, .call gradient⟩]⟩
    let context : Context := .ofElement .empty .standard
    let missing : ResolveError := .missingOrInvalidAttribute "tint" "attribute is not set"
    ∃ r, decoder.decodeModifier background = .ok r ∧ r.resolve context = .error missing ∧
      FailsWith decoder context r missing ∧
      ∃ t e, Relation.ReflTransGen (Requires decoder) r t ∧ Fault context t e := by
  intro decoder gradient background context missing
  have hresult : ((decoder.decodeModifier background).toOption.bind fun r =>
      failure? (r.resolve context)) = some missing := by
    decide +kernel
  obtain ⟨r, hr, hfailure⟩ := Option.bind_eq_some_iff.mp hresult
  have hdecode := toOption_eq_some_iff.mp hr
  have herror := failure?_eq_some_iff.mp hfailure
  have hlocal := failure_locality .ios true background r context (.inr hdecode) r .refl
  exact ⟨r, hdecode, herror, (hlocal.2.1 missing).mp herror, hlocal.1.mp ⟨missing, herror⟩⟩

end DeferredStyle
