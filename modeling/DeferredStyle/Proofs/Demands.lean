import DeferredStyle.Proofs.Inventory
import DeferredStyle.Proofs.Soundness

/-!
# Required and optional arguments

A parameter is optional if its rule is.  The builders of the standard vocabulary ask for the
arguments of all other parameters from left to right, so that they fail with the leftmost failure
among these; only a gradient without stops fails by itself.  A failure of an optional argument is
taken for nil, and leaves the field it stands for empty.

* `required` — the arguments of the parameters that are not optional.
* `Builder.Propagates` — a builder fails as the leftmost of its required arguments does.
* `Vocabulary.HasShape.propagates` — the builders of the vocabulary do, apart from gradients.
* `Vocabulary.HasShape.ignoresOptional` — they take failures of optional arguments for nil.
-/

set_option autoImplicit false

namespace DeferredStyle

open Vocabulary

/-! ## Failures -/

/-- The error of a result that has one. -/
def failure? {ε α : Type} : Except ε α → Option ε
  | .error e => some e
  | .ok _ => none

theorem failure?_eq_some_iff {ε α : Type} {result : Except ε α} {e : ε} :
    failure? result = some e ↔ result = .error e := by
  cases result <;> simp [failure?]

theorem failure?_eq_none_iff {ε α : Type} {result : Except ε α} :
    failure? result = none ↔ ∃ a, result = .ok a := by
  cases result <;> simp [failure?]

theorem failure?_map {ε α β : Type} (result : Except ε α) (f : α → β) :
    failure? (result.map f) = failure? result := by
  cases result <;> rfl

/-- The first error among values is their leftmost failure. -/
theorem failure?_allOf (children : List (Except ResolveError Value)) :
    failure? (Args.allOf children) = children.findSome? failure? := by
  induction children with
  | nil => rfl
  | cons child children ih =>
    cases child with
    | error e => rfl
    | ok value => rw [Args.allOf, failure?_map, ih]; rfl

/-! ## Required arguments -/

/-- Whether a value of the rule may be absent. -/
def Rule.isOptional : Rule → Bool
  | optional _ => true
  | _ => false

/-- What stands at the places of the parameters that are not optional. -/
def required {α : Type} : List Param → List α → List α
  | param :: params, a :: as =>
    match param.rule.isOptional with
    | true => required params as
    | false => a :: required params as
  | _, _ => []

theorem required_map {α β : Type} (f : α → β) (params : List Param) (as : List α) :
    required params (as.map f) = (required params as).map f := by
  induction params generalizing as with
  | nil => rfl
  | cons param params ih =>
    cases as with
    | nil => rfl
    | cons a as =>
      rw [List.map_cons, required, required, ih]
      cases param.rule.isOptional <;> rfl

theorem mem_required_iff {α : Type} {params : List Param} {as : List α} {a : α} :
    a ∈ required params as ↔
      ∃ param, (param, a) ∈ params.zip as ∧ param.rule.isOptional = false := by
  induction params generalizing as with
  | nil => simp [required]
  | cons param params ih =>
    cases as with
    | nil => simp [required]
    | cons b as =>
      cases hoptional : param.rule.isOptional with
      | false => simp [required, hoptional, ih, or_and_right, exists_or]
      | true => simp [required, hoptional, ih, or_and_right, exists_or]

/-! ## Builders -/

/-- On arguments that fit, the builder fails with the leftmost failure of a required argument, and
only then. -/
def Builder.Propagates (params : List Param) (builder : Builder) : Prop :=
  ∀ label children environment, Fits Typed Foreseen params children →
    failure? (builder.build ⟨label, children, environment⟩) =
      (required params children).findSome? failure?

/-- Whichever of its builders a shape uses fails with its leftmost required argument. -/
structure Shape.Propagates (shape : Shape) : Prop where
  builder : shape.builder.Propagates shape.params
  fallback : ∀ fallback, shape.fallback = some fallback → fallback.Propagates shape.params

/-- A builder that asks for an argument fails with it, or goes on with its value. -/
theorem failure?_bind_value {α : Type} [FromValue α] {label : String}
    {children rest : List (Except ResolveError Value)} {environment : Option Environment}
    {index : Nat} {child : Except ResolveError Value} (hchild : children[index]? = some child)
    {rule : Rule} (hmeets : Meets Foreseen (rule.Holds Typed) child) (hgives : rule.Gives α)
    {f : α → Except ResolveError Value} (hf : ∀ a, failure? (f a) = rest.findSome? failure?) :
    failure? (Args.value α ⟨label, children, environment⟩ index >>= f) =
      (child :: rest).findSome? failure? := by
  simp only [Args.value, Args.get, hchild]
  cases hmeets with
  | error he => rfl
  | ok hvalue =>
    obtain ⟨a, ha⟩ := hgives _ hvalue
    simp only [ha]
    exact hf a

namespace Vocabulary

theorem constant_propagates (value : Value) : (Builder.constant value).Propagates [] := by
  intro label children environment h
  rfl

theorem schemeColor_propagates (dark light : Color) : (schemeColor dark light).Propagates [] := by
  intro label children environment h
  rfl

theorem colorOfHex_propagates : colorOfHex.Propagates [.positional (.leaf hexLeaf)] := by
  intro label children environment h
  rcases h with _ | ⟨hcolor, _ | _⟩
  refine failure?_bind_value (α := Color) rfl hcolor (.leaf hexLeaf_ofKind) fun color => ?_
  rfl

theorem colorOfComponents_propagates {default : Literal} :
    colorOfComponents.Propagates
      [.labeled "red" (.leaf .float), .labeled "green" (.leaf .float),
        .labeled "blue" (.leaf .float),
        (Param.labeled "opacity" (.leaf .float)).withDefault default] := by
  intro label children environment h
  rcases h with _ | ⟨hred, _ | ⟨hgreen, _ | ⟨hblue, _ | ⟨hopacity, _ | _⟩⟩⟩⟩
  refine failure?_bind_value (α := Float) rfl hred (.leaf float_ofKind) fun red => ?_
  refine failure?_bind_value (α := Float) rfl hgreen (.leaf float_ofKind) fun green => ?_
  refine failure?_bind_value (α := Float) rfl hblue (.leaf float_ofKind) fun blue => ?_
  refine failure?_bind_value (α := Float) rfl hopacity (.leaf float_ofKind) fun opacity => ?_
  rfl

theorem fadedColor_propagates :
    fadedColor.Propagates [.positional (.type "Color"), .positional (.leaf .float)] := by
  intro label children environment h
  rcases h with _ | ⟨hbase, _ | ⟨hfactor, _ | _⟩⟩
  refine failure?_bind_value (α := Color) rfl hbase (.type rfl) fun base => ?_
  refine failure?_bind_value (α := Float) rfl hfactor (.leaf float_ofKind) fun factor => ?_
  rfl

theorem solid_propagates : solid.Propagates [.positional (.type "Color")] := by
  intro label children environment h
  rcases h with _ | ⟨hcolor, _ | _⟩
  refine failure?_bind_value (α := Color) rfl hcolor (.type rfl) fun color => ?_
  rfl

theorem tinted_propagates : tinted.Propagates [.positional (.type "Color")] := by
  intro label children environment h
  rcases h with _ | ⟨hcolor, _ | _⟩
  refine failure?_bind_value (α := Color) rfl hcolor (.type rfl) fun color => ?_
  rfl

theorem fadedPaint_propagates :
    fadedPaint.Propagates [.positional (.type "Paint"), .positional (.leaf .float)] := by
  intro label children environment h
  rcases h with _ | ⟨hbase, _ | ⟨hamount, _ | _⟩⟩
  refine failure?_bind_value (α := Paint) rfl hbase (.type rfl) fun base => ?_
  refine failure?_bind_value (α := Float) rfl hamount (.leaf float_ofKind) fun amount => ?_
  rfl

/-- Both builders of system fonts ask for the size. -/
theorem systemFont_propagates {weight design : Rule} :
    systemFont.Propagates
      [.labeled "size" (.leaf .float), optionalParam "weight" weight,
        optionalParam "design" design] := by
  intro label children environment h
  -- Nothing is assumed about the optional arguments, since their failures do not matter.
  rcases h with _ | ⟨hsize, _ | ⟨-, _ | ⟨-, _ | _⟩⟩⟩
  refine failure?_bind_value (α := Float) rfl hsize (.leaf float_ofKind) fun size => ?_
  rfl

theorem undesignedFont_propagates {weight design : Rule} :
    undesignedFont.Propagates
      [.labeled "size" (.leaf .float), optionalParam "weight" weight,
        optionalParam "design" design] := by
  intro label children environment h
  rcases h with _ | ⟨hsize, _ | ⟨-, _ | ⟨-, _ | _⟩⟩⟩
  refine failure?_bind_value (α := Float) rfl hsize (.leaf float_ofKind) fun size => ?_
  rfl

theorem weightedFont_propagates :
    weightedFont.Propagates [.positional (.type "Font"), .positional (.type "FontWeight")] := by
  intro label children environment h
  rcases h with _ | ⟨hbase, _ | ⟨hweight, _ | _⟩⟩
  refine failure?_bind_value (α := Font) rfl hbase (.type rfl) fun base => ?_
  refine failure?_bind_value (α := FontWeight) rfl hweight (.type rfl) fun weight => ?_
  rfl

/-- Both frames ask for the alignment. -/
theorem fixedFrame_propagates {width height : String} :
    fixedFrame.Propagates [optionalLength width, optionalLength height, alignmentParam] := by
  intro label children environment h
  rcases h with _ | ⟨-, _ | ⟨-, _ | ⟨halignment, _ | _⟩⟩⟩
  refine failure?_bind_value (α := Alignment) rfl halignment (.type rfl) fun alignment => ?_
  rfl

theorem flexibleFrame_propagates {maxWidth maxHeight : String} :
    flexibleFrame.Propagates
      [optionalLength maxWidth, optionalLength maxHeight, alignmentParam] := by
  intro label children environment h
  rcases h with _ | ⟨-, _ | ⟨-, _ | ⟨halignment, _ | _⟩⟩⟩
  refine failure?_bind_value (α := Alignment) rfl halignment (.type rfl) fun alignment => ?_
  rfl

theorem uniformPadding_propagates : uniformPadding.Propagates [.positional lengthRule] := by
  intro label children environment h
  rcases h with _ | ⟨hlength, _ | _⟩
  refine failure?_bind_value (α := Float) rfl hlength (.type rfl) fun length => ?_
  rfl

theorem edgePadding_propagates {edges length : Literal} :
    edgePadding.Propagates
      [(Param.positional (.type "EdgeSet")).withDefault edges,
        (Param.positional (.optional lengthRule)).withDefault length] := by
  intro label children environment h
  rcases h with _ | ⟨hedges, _ | ⟨-, _ | _⟩⟩
  refine failure?_bind_value (α := EdgeSet) rfl hedges (.type rfl) fun edges => ?_
  rfl

theorem ofValue_propagates {α : Type} [FromValue α] {make : α → Modifier} {rule : Rule}
    (hgives : rule.Gives α) (hrequired : rule.isOptional = false) :
    (ofValue α make).Propagates [.positional rule] := by
  intro label children environment h
  rcases h with _ | ⟨hvalue, _ | _⟩
  rw [required, Param.positional, hrequired]
  refine failure?_bind_value (α := α) rfl hvalue hgives fun a => ?_
  rfl

theorem shift_propagates {x y : Literal} :
    shift.Propagates
      [(Param.labeled "x" lengthRule).withDefault x,
        (Param.labeled "y" lengthRule).withDefault y] := by
  intro label children environment h
  rcases h with _ | ⟨hx, _ | ⟨hy, _ | _⟩⟩
  refine failure?_bind_value (α := Float) rfl hx (.type rfl) fun x => ?_
  refine failure?_bind_value (α := Float) rfl hy (.type rfl) fun y => ?_
  rfl

/-- A gradient fails with its stops, unless they are the empty list. -/
theorem gradient_failure? {label : String} {stops : Except ResolveError Value}
    {environment : Option Environment}
    (h : Meets Foreseen ((Rule.list (.type "Color")).Holds Typed) stops)
    (hstops : stops ≠ .ok (.list [])) :
    failure? (gradient.build ⟨label, [stops], environment⟩) = failure? stops := by
  cases h with
  | error he => rfl
  | ok hvalue =>
    obtain ⟨colors, hcolors⟩ := Rule.Gives.list (α := Color) (.type rfl) _ hvalue
    cases hvalue with
    | list hvalues =>
      rename_i values
      cases values with
      | nil => exact absurd rfl hstops
      | cons value values =>
        have hvalue : Args.value (List Color)
            ⟨label, [.ok (.list (value :: values))], environment⟩ 0 = .ok colors := by
          simp [Args.value, Args.get, hcolors]
        have hcons : colors.isEmpty = false := by
          simp only [FromValue.fromValue?, FromValue.itemsFromValues?] at hcolors
          split at hcolors <;> cases hcolors
          rfl
        change failure? (Args.value (List Color) _ 0 >>= _) = _
        rw [hvalue]
        change failure? (if colors.isEmpty = true then _ else _) = _
        rw [hcons]
        rfl

/-! ## Shapes -/

theorem plain_propagates {kind : ShapeKind} {params : List Param} {keys : List String}
    {builder : Builder} (h : builder.Propagates params) :
    (Shape.plain kind params keys builder).Propagates :=
  ⟨h, nofun⟩

/-- **The shapes of the vocabulary fail with their leftmost required argument**, gradients apart. -/
theorem HasShape.propagates {typeName : String} {shape : Shape} (h : HasShape typeName shape) :
    shape.Propagates ∨
      typeName = "Paint" ∧ shape =
        .enumCase "gradient" [.labeled "stops" (.list (.type "Color"))] Vocabulary.gradient := by
  cases h with
  | gradient => exact .inr ⟨rfl, rfl⟩
  | named => exact .inl (plain_propagates (constant_propagates _))
  | hexColor => exact .inl (plain_propagates colorOfHex_propagates)
  | componentColor => exact .inl (plain_propagates colorOfComponents_propagates)
  | fadedColor => exact .inl (plain_propagates fadedColor_propagates)
  | schemeColor => exact .inl ⟨schemeColor_propagates _ _, nofun⟩
  | solid => exact .inl (plain_propagates solid_propagates)
  | tinted => exact .inl (plain_propagates tinted_propagates)
  | fadedPaint => exact .inl (plain_propagates fadedPaint_propagates)
  | windowBackground => exact .inl ⟨constant_propagates _, nofun⟩
  | systemFont =>
    refine .inl ⟨systemFont_propagates, fun fallback hfallback => ?_⟩
    cases hfallback
    exact undesignedFont_propagates
  | weightedFont => exact .inl (plain_propagates weightedFont_propagates)
  | fixedFrame => exact .inl (plain_propagates fixedFrame_propagates)
  | flexibleFrame => exact .inl (plain_propagates flexibleFrame_propagates)
  | uniformPadding => exact .inl (plain_propagates uniformPadding_propagates)
  | edgePadding => exact .inl (plain_propagates edgePadding_propagates)
  | foregroundStyle | background | font | fontWeight | cornerRadius =>
    exact .inl (plain_propagates (ofValue_propagates (.type rfl) rfl))
  | opacity => exact .inl (plain_propagates (ofValue_propagates (.leaf float_ofKind) rfl))
  | shift => exact .inl (plain_propagates shift_propagates)

end Vocabulary

/-! ## Optional arguments -/

/-- The field of the value that the parameter at a place stands for is empty. -/
inductive Value.Lacks : Value → Nat → Prop
  | width {height : Option Float} {alignment : Alignment} :
      Lacks (.modifier (.frame none height alignment)) 0
  | height {width : Option Float} {alignment : Alignment} :
      Lacks (.modifier (.frame width none alignment)) 1
  | maxWidth {maxHeight : Option Float} {alignment : Alignment} :
      Lacks (.modifier (.flexFrame none maxHeight alignment)) 0
  | maxHeight {maxWidth : Option Float} {alignment : Alignment} :
      Lacks (.modifier (.flexFrame maxWidth none alignment)) 1
  | length {edges : EdgeSet} : Lacks (.modifier (.padding edges none)) 1
  | weight {size : Float} {design : Option FontDesign} : Lacks (.font (.system size none design)) 1
  | design {size : Float} {weight : Option FontWeight} : Lacks (.font (.system size weight none)) 2

/-- The builder takes the failure of an optional argument for nil, and leaves its field empty. -/
def Builder.IgnoresOptional (params : List Param) (builder : Builder) : Prop :=
  ∀ label children environment index param e, params[index]? = some param →
    param.rule.isOptional = true → children.length = params.length →
    children[index]? = some (.error e) →
    builder.build ⟨label, children, environment⟩ =
        builder.build ⟨label, children.set index (.ok .nil), environment⟩ ∧
      ∀ value, builder.build ⟨label, children, environment⟩ = .ok value → value.Lacks index

/-- A builder leaves a field empty if what it goes on with does. -/
theorem lacks_of_bind_value {α : Type} [FromValue α] {args : Args} {index place : Nat}
    {f : α → Except ResolveError Value} (hf : ∀ a value, f a = .ok value → value.Lacks place)
    (value : Value) (h : (args.value α index >>= f) = .ok value) : value.Lacks place := by
  obtain ⟨-, a, -, -, hvalue⟩ := Args.exists_of_bind_value h
  exact hf a value hvalue

theorem ignoresOptional_of_required {params : List Param} {builder : Builder}
    (h : ∀ param ∈ params, param.rule.isOptional = false) : builder.IgnoresOptional params := by
  intro label children environment index param e hparam hoptional _ _
  rw [h param (List.mem_of_getElem? hparam)] at hoptional
  cases hoptional

namespace Vocabulary

theorem systemFont_ignoresOptional {weight design : Rule} :
    systemFont.IgnoresOptional
      [.labeled "size" (.leaf .float), optionalParam "weight" weight,
        optionalParam "design" design] := by
  intro label children environment index param e hparam hoptional hlength herror
  obtain ⟨c₀, c₁, c₂, rfl⟩ := List.length_eq_three.mp hlength
  -- Only the places of the weight and of the design are optional.
  rcases index with _ | _ | _ | index <;> cases hparam <;> cases hoptional <;> cases herror
  · refine ⟨rfl, lacks_of_bind_value fun size value hvalue => ?_⟩
    cases hvalue
    exact .weight
  · refine ⟨rfl, lacks_of_bind_value fun size value hvalue => ?_⟩
    cases hvalue
    exact .design

theorem undesignedFont_ignoresOptional {weight design : Rule} :
    undesignedFont.IgnoresOptional
      [.labeled "size" (.leaf .float), optionalParam "weight" weight,
        optionalParam "design" design] := by
  intro label children environment index param e hparam hoptional hlength herror
  obtain ⟨c₀, c₁, c₂, rfl⟩ := List.length_eq_three.mp hlength
  rcases index with _ | _ | _ | index <;> cases hparam <;> cases hoptional <;> cases herror
  · refine ⟨rfl, lacks_of_bind_value fun size value hvalue => ?_⟩
    cases hvalue
    exact .weight
  · refine ⟨rfl, lacks_of_bind_value fun size value hvalue => ?_⟩
    cases hvalue
    exact .design

theorem fixedFrame_ignoresOptional {width height : String} :
    fixedFrame.IgnoresOptional [optionalLength width, optionalLength height, alignmentParam] := by
  intro label children environment index param e hparam hoptional hlength herror
  obtain ⟨c₀, c₁, c₂, rfl⟩ := List.length_eq_three.mp hlength
  rcases index with _ | _ | _ | index <;> cases hparam <;> cases hoptional <;> cases herror
  · refine ⟨rfl, lacks_of_bind_value fun alignment value hvalue => ?_⟩
    cases hvalue
    exact .width
  · refine ⟨rfl, lacks_of_bind_value fun alignment value hvalue => ?_⟩
    cases hvalue
    exact .height

theorem flexibleFrame_ignoresOptional {maxWidth maxHeight : String} :
    flexibleFrame.IgnoresOptional
      [optionalLength maxWidth, optionalLength maxHeight, alignmentParam] := by
  intro label children environment index param e hparam hoptional hlength herror
  obtain ⟨c₀, c₁, c₂, rfl⟩ := List.length_eq_three.mp hlength
  rcases index with _ | _ | _ | index <;> cases hparam <;> cases hoptional <;> cases herror
  · refine ⟨rfl, lacks_of_bind_value fun alignment value hvalue => ?_⟩
    cases hvalue
    exact .maxWidth
  · refine ⟨rfl, lacks_of_bind_value fun alignment value hvalue => ?_⟩
    cases hvalue
    exact .maxHeight

theorem edgePadding_ignoresOptional {edges length : Literal} :
    edgePadding.IgnoresOptional
      [(Param.positional (.type "EdgeSet")).withDefault edges,
        (Param.positional (.optional lengthRule)).withDefault length] := by
  intro label children environment index param e hparam hoptional hlength herror
  obtain ⟨c₀, c₁, rfl⟩ := List.length_eq_two.mp hlength
  rcases index with _ | _ | index <;> cases hparam <;> cases hoptional
  cases herror
  refine ⟨rfl, lacks_of_bind_value fun edges value hvalue => ?_⟩
  cases hvalue
  exact .length

/-- **The shapes of the vocabulary take failures of optional arguments for nil.** -/
theorem HasShape.ignoresOptional {typeName : String} {shape : Shape} (h : HasShape typeName shape) :
    shape.builder.IgnoresOptional shape.params ∧
      ∀ fallback, shape.fallback = some fallback → fallback.IgnoresOptional shape.params := by
  cases h with
  | systemFont =>
    refine ⟨systemFont_ignoresOptional, fun fallback hfallback => ?_⟩
    cases hfallback
    exact undesignedFont_ignoresOptional
  | fixedFrame => exact ⟨fixedFrame_ignoresOptional, nofun⟩
  | flexibleFrame => exact ⟨flexibleFrame_ignoresOptional, nofun⟩
  | edgePadding => exact ⟨edgePadding_ignoresOptional, nofun⟩
  | _ =>
    refine ⟨ignoresOptional_of_required ?_, nofun⟩
    simp [Shape.initializer, Shape.enumCase, Shape.bareCase, Shape.method, Shape.plain,
      Shape.available, Shape.asContextual, Param.positional, Param.labeled, Param.withDefault,
      lengthRule, Rule.isOptional]

end Vocabulary

end DeferredStyle
