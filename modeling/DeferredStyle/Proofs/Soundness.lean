import DeferredStyle.Proofs.Registration
import DeferredStyle.Proofs.Typing

/-!
# Type soundness of the standard vocabulary

Every node that is decoded as a type of the standard vocabulary has, in every context, a value of
that type, or fails because of an attribute, a system that is too old for the window's background,
or a gradient without stops.  Every node that is decoded as a modifier has the modifier it is tagged
with, or fails in one of these ways.

* `Vocabulary.Typed`, `Vocabulary.Foreseen` — the values of each type and the foreseen errors.
* `Fits.value`, `Fits.bind_value` — what a builder gets when it asks for an argument.
* `Vocabulary.types_sound`, `Vocabulary.modifiers_sound` — every catalog is sound.
* `standard_vocabulary_sound` — the results of decoded nodes.
-/

set_option autoImplicit false

namespace DeferredStyle

namespace Vocabulary

/-- The kind of the values of a type: a length is a number, and the values of all other types have a
kind of their own. -/
def kindOf (typeName : String) : String :=
  if typeName = "Length" then "Double" else typeName

/-- The values of a type are those of its kind. -/
def Typed (typeName : String) (value : Value) : Prop :=
  value.kind = kindOf typeName

/-- The errors that the standard vocabulary may come to. -/
inductive Foreseen : ResolveError → Prop
  | attribute (name reason : String) : Foreseen (.missingOrInvalidAttribute name reason)
  | windowBackground (platform : Platform) (required actual : Version) :
      Foreseen (.unsupportedOnRuntime ".windowBackground" platform required actual)
  | gradient (reason : String) : Foreseen (.invalidValue ".gradient(stops:)" reason)

end Vocabulary

open Vocabulary

/-! ## Taking values as types -/

/-- A type that every value of its kind can be taken as. -/
class FromValue.Complete (α : Type) [FromValue α] : Prop where
  exists_of_kind : ∀ value : Value, value.kind = FromValue.kind α →
    ∃ a : α, FromValue.fromValue? value = some a

namespace FromValue

instance : Complete Float where
  exists_of_kind value h := by
    cases value <;> simp [Value.kind, kind] at h
    exact ⟨_, rfl⟩

instance : Complete Color where
  exists_of_kind value h := by
    cases value <;> simp [Value.kind, kind] at h
    exact ⟨_, rfl⟩

instance : Complete Paint where
  exists_of_kind value h := by
    cases value <;> simp [Value.kind, kind] at h
    exact ⟨_, rfl⟩

instance : Complete Font where
  exists_of_kind value h := by
    cases value <;> simp [Value.kind, kind] at h
    exact ⟨_, rfl⟩

instance : Complete FontWeight where
  exists_of_kind value h := by
    cases value <;> simp [Value.kind, kind] at h
    exact ⟨_, rfl⟩

instance : Complete Alignment where
  exists_of_kind value h := by
    cases value <;> simp [Value.kind, kind] at h
    exact ⟨_, rfl⟩

instance : Complete EdgeSet where
  exists_of_kind value h := by
    cases value <;> simp [Value.kind, kind] at h
    exact ⟨_, rfl⟩

end FromValue

/-- Every value of the rule can be taken as the type. -/
def Rule.Gives (α : Type) [FromValue α] (rule : Rule) : Prop :=
  ∀ value, rule.Holds Typed value → ∃ a : α, FromValue.fromValue? value = some a

/-- The decoder makes values of one kind. -/
def Leaf.OfKind (kind : String) (leaf : Leaf) : Prop :=
  ∀ value, leaf.Makes value → value.kind = kind

section Arguments

variable {α : Type} [FromValue α]

theorem Rule.Gives.type [FromValue.Complete α] {name : String}
    (h : kindOf name = FromValue.kind α) : (Rule.type name).Gives α := by
  intro value hvalue
  cases hvalue with
  | type htyped => exact FromValue.Complete.exists_of_kind value (htyped.trans h)

theorem Rule.Gives.leaf [FromValue.Complete α] {leaf : Leaf}
    (h : leaf.OfKind (FromValue.kind α)) : (Rule.leaf leaf).Gives α := by
  intro value hvalue
  cases hvalue with
  | leaf hmakes => exact FromValue.Complete.exists_of_kind value (h value hmakes)

theorem Rule.Gives.list {item : Rule} (h : item.Gives α) : (Rule.list item).Gives (List α) := by
  intro value hvalue
  cases hvalue with
  | list hvalues =>
    rename_i values
    change ∃ as : List α, FromValue.itemsFromValues? values = some as
    induction values with
    | nil => exact ⟨[], rfl⟩
    | cons value values ih =>
      obtain ⟨a, ha⟩ := h value (hvalues value List.mem_cons_self)
      obtain ⟨as, has⟩ := ih fun v hv => hvalues v (List.mem_cons_of_mem value hv)
      exact ⟨a :: as, by simp [FromValue.itemsFromValues?, ha, has]⟩

/-- A builder that asks for an argument gets an element of the type, or the argument's own error. -/
theorem Fits.value {params : List Param} {children : List (Except ResolveError Value)}
    (h : Fits Typed Foreseen params children) {index : Nat} {param : Param}
    (hparam : params[index]? = some param) (hgives : param.rule.Gives α) {label : String}
    {environment : Option Environment} :
    Meets Foreseen (fun _ => True) (Args.value α ⟨label, children, environment⟩ index) := by
  obtain ⟨child, hchild, hmeets⟩ := getElem?_of_forall₂ h hparam
  simp only [Args.value, Args.get, hchild]
  cases hmeets with
  | error he => exact .error he
  | ok hvalue =>
    obtain ⟨a, ha⟩ := hgives _ hvalue
    simp only [ha]
    exact .ok trivial

/-- A builder that asks for an argument and goes on with its value. -/
theorem Fits.bind_value {params : List Param} {children : List (Except ResolveError Value)}
    (h : Fits Typed Foreseen params children) {index : Nat} {param : Param}
    (hparam : params[index]? = some param) (hgives : param.rule.Gives α) {label : String}
    {environment : Option Environment} {P : Value → Prop} {f : α → Except ResolveError Value}
    (hf : ∀ a, Meets Foreseen P (f a)) :
    Meets Foreseen P (Args.value α ⟨label, children, environment⟩ index >>= f) := by
  apply Meets.bind (h.value hparam hgives)
  intro a _
  exact hf a

/-- A builder that asks for an argument and goes on with its value makes what it makes from one of
the children. -/
theorem Args.exists_of_bind_value {args : Args} {index : Nat} {f : α → Except ResolveError Value}
    {value : Value} (h : (args.value α index >>= f) = .ok value) :
    ∃ child a, .ok child ∈ args.children ∧ FromValue.fromValue? child = some a ∧
      f a = .ok value := by
  cases hargument : args.value α index with
  | error e =>
    rw [hargument] at h
    cases h
  | ok a =>
    rw [hargument] at h
    unfold Args.value Args.get at hargument
    split at hargument
    · cases hargument
    · rename_i child hchild
      split at hchild
      · rename_i hget
        subst hchild
        split at hargument
        · rename_i hfrom
          cases hargument
          exact ⟨child, a, List.mem_of_getElem? hget, hfrom, h⟩
        · cases hargument
      · cases hchild

end Arguments

/-! ## Leaf decoders -/

namespace Vocabulary

theorem ofKind_uniform {name kind : String} {rule : Literal → Except String Value}
    (h : ∀ literal value, rule literal = .ok value → value.kind = kind) :
    (Leaf.uniform name rule).OfKind kind := by
  rintro value ⟨literal, hmade | hmade⟩
  · exact h literal value hmade
  · exact h literal value hmade

theorem floatLiteral_kind (literal : Literal) (value : Value)
    (h : Leaf.floatLiteral literal = .ok value) : value.kind = "Double" := by
  unfold Leaf.floatLiteral at h
  split at h <;> cases h <;> rfl

theorem float_ofKind : Leaf.float.OfKind "Double" := by
  rintro value ⟨literal, hmade | hmade⟩
  · exact floatLiteral_kind literal value hmade
  · change Leaf.floatAttribute literal = .ok value at hmade
    unfold Leaf.floatAttribute at hmade
    split at hmade
    · split at hmade <;> cases hmade
      rfl
    · exact floatLiteral_kind _ value hmade

theorem colorLiteral_kind (literal : Literal) (value : Value)
    (h : colorLiteral literal = .ok value) : value.kind = "Color" := by
  unfold colorLiteral at h
  split at h
  · split at h <;> cases h
    rfl
  · cases h

theorem hexLiteral_kind (literal : Literal) (value : Value)
    (h : hexLiteral literal = .ok value) : value.kind = "Color" := by
  unfold hexLiteral at h
  split at h
  · split at h <;> cases h
    rfl
  · cases h

theorem paintLiteral_kind (literal : Literal) (value : Value)
    (h : paintLiteral literal = .ok value) : value.kind = "Paint" := by
  unfold paintLiteral at h
  split at h <;> cases h
  rfl

theorem hexLeaf_ofKind : hexLeaf.OfKind "Color" := by
  rintro value ⟨literal, hmade | hmade⟩
  · exact hexLiteral_kind literal value hmade
  · exact colorLiteral_kind literal value hmade

theorem leafOf_ofKind {β : Type} {typeName kind : String} (wrap : β → Value)
    {names : List (String × β)} (h : ∀ b, (wrap b).kind = kind) :
    (leafOf typeName wrap names).OfKind kind := by
  refine ofKind_uniform fun literal value hmade => ?_
  unfold Leaf.namedLiteral at hmade
  split at hmade
  · split at hmade
    · rename_i v hv
      cases hmade
      obtain ⟨b, -, rfl⟩ := Option.map_eq_some_iff.mp hv
      exact h b
    · cases hmade
  · cases hmade

/-! ## Builders -/

variable {label : String}

theorem colorOfHex_sound :
    colorOfHex.Sound Typed Foreseen (Typed "Color") [.positional (.leaf hexLeaf)] label := by
  intro children environment h
  refine h.bind_value (α := Color) rfl (.leaf hexLeaf_ofKind) fun color => ?_
  exact .ok rfl

theorem colorOfComponents_sound {default : Literal} :
    colorOfComponents.Sound Typed Foreseen (Typed "Color")
      [.labeled "red" (.leaf .float), .labeled "green" (.leaf .float),
        .labeled "blue" (.leaf .float),
        (Param.labeled "opacity" (.leaf .float)).withDefault default] label := by
  intro children environment h
  refine h.bind_value (α := Float) rfl (.leaf float_ofKind) fun red => ?_
  refine h.bind_value (α := Float) rfl (.leaf float_ofKind) fun green => ?_
  refine h.bind_value (α := Float) rfl (.leaf float_ofKind) fun blue => ?_
  refine h.bind_value (α := Float) rfl (.leaf float_ofKind) fun opacity => ?_
  exact .ok rfl

theorem fadedColor_sound :
    fadedColor.Sound Typed Foreseen (Typed "Color")
      [.positional (.type "Color"), .positional (.leaf .float)] label := by
  intro children environment h
  refine h.bind_value (α := Color) rfl (.type rfl) fun base => ?_
  refine h.bind_value (α := Float) rfl (.leaf float_ofKind) fun factor => ?_
  exact .ok rfl

theorem solid_sound :
    solid.Sound Typed Foreseen (Typed "Paint") [.positional (.type "Color")] label := by
  intro children environment h
  refine h.bind_value (α := Color) rfl (.type rfl) fun color => ?_
  exact .ok rfl

theorem tinted_sound :
    tinted.Sound Typed Foreseen (Typed "Paint") [.positional (.type "Color")] label := by
  intro children environment h
  refine h.bind_value (α := Color) rfl (.type rfl) fun color => ?_
  exact .ok rfl

theorem gradient_sound :
    gradient.Sound Typed Foreseen (Typed "Paint") [.labeled "stops" (.list (.type "Color"))]
      ".gradient(stops:)" := by
  intro children environment h
  refine h.bind_value (α := List Color) rfl (.list (.type rfl)) fun stops => ?_
  by_cases hempty : stops.isEmpty = true
  · rw [if_pos hempty]
    exact .error (.gradient _)
  · rw [if_neg hempty]
    exact .ok rfl

theorem fadedPaint_sound :
    fadedPaint.Sound Typed Foreseen (Typed "Paint")
      [.positional (.type "Paint"), .positional (.leaf .float)] label := by
  intro children environment h
  refine h.bind_value (α := Paint) rfl (.type rfl) fun base => ?_
  refine h.bind_value (α := Float) rfl (.leaf float_ofKind) fun amount => ?_
  exact .ok rfl

/-- Both builders of system fonts read the size, and nothing else that may fail. -/
theorem systemFont_sound {params : List Param} :
    systemFont.Sound Typed Foreseen (Typed "Font") (.labeled "size" (.leaf .float) :: params)
      label := by
  intro children environment h
  refine h.bind_value (α := Float) rfl (.leaf float_ofKind) fun size => ?_
  exact .ok rfl

theorem undesignedFont_sound {params : List Param} :
    undesignedFont.Sound Typed Foreseen (Typed "Font") (.labeled "size" (.leaf .float) :: params)
      label := by
  intro children environment h
  refine h.bind_value (α := Float) rfl (.leaf float_ofKind) fun size => ?_
  exact .ok rfl

theorem weightedFont_sound :
    weightedFont.Sound Typed Foreseen (Typed "Font")
      [.positional (.type "Font"), .positional (.type "FontWeight")] label := by
  intro children environment h
  refine h.bind_value (α := Font) rfl (.type rfl) fun base => ?_
  refine h.bind_value (α := FontWeight) rfl (.type rfl) fun weight => ?_
  exact .ok rfl

/-- A builder that makes one value is sound if the value is right. -/
theorem constant_sound {P : Value → Prop} {value : Value} {params : List Param} (h : P value) :
    (Builder.constant value).Sound Typed Foreseen P params label :=
  fun _ _ _ => .ok h

/-- The value of a modifier's node is the modifier that the node is tagged with. -/
def Modifies (tag : String) (value : Value) : Prop :=
  ∃ m : Modifier, value = .modifier m ∧ m.name = tag

theorem ofValue_sound {α : Type} [FromValue α] {make : α → Modifier} {tag : String} {rule : Rule}
    (hgives : rule.Gives α) (hname : ∀ a, (make a).name = tag) :
    (ofValue α make).Sound Typed Foreseen (Modifies tag) [.positional rule] label := by
  intro children environment h
  refine h.bind_value (α := α) rfl hgives fun a => ?_
  exact .ok ⟨make a, rfl, hname a⟩

/-- Both frames read the alignment, and nothing else that may fail. -/
theorem fixedFrame_sound {width height : Param} :
    fixedFrame.Sound Typed Foreseen (Modifies "frame") [width, height, alignmentParam] label := by
  intro children environment h
  refine h.bind_value (α := Alignment) rfl (.type rfl) fun alignment => ?_
  exact .ok ⟨_, rfl, rfl⟩

theorem flexibleFrame_sound {maxWidth maxHeight : Param} :
    flexibleFrame.Sound Typed Foreseen (Modifies "frame") [maxWidth, maxHeight, alignmentParam]
      label := by
  intro children environment h
  refine h.bind_value (α := Alignment) rfl (.type rfl) fun alignment => ?_
  exact .ok ⟨_, rfl, rfl⟩

theorem uniformPadding_sound :
    uniformPadding.Sound Typed Foreseen (Modifies "padding") [.positional lengthRule] label := by
  intro children environment h
  refine h.bind_value (α := Float) rfl (.type rfl) fun length => ?_
  exact .ok ⟨_, rfl, rfl⟩

theorem edgePadding_sound {edges length : Literal} :
    edgePadding.Sound Typed Foreseen (Modifies "padding")
      [(Param.positional (.type "EdgeSet")).withDefault edges,
        (Param.positional (.optional lengthRule)).withDefault length] label := by
  intro children environment h
  refine h.bind_value (α := EdgeSet) rfl (.type rfl) fun edges => ?_
  exact .ok ⟨_, rfl, rfl⟩

theorem shift_sound {x y : Literal} :
    shift.Sound Typed Foreseen (Modifies "offset")
      [(Param.labeled "x" lengthRule).withDefault x, (Param.labeled "y" lengthRule).withDefault y]
      label := by
  intro children environment h
  refine h.bind_value (α := Float) rfl (.type rfl) fun x => ?_
  refine h.bind_value (α := Float) rfl (.type rfl) fun y => ?_
  exact .ok ⟨_, rfl, rfl⟩

/-! ## Shapes -/

variable {P : Value → Prop} {typeName : String}

/-- A shape without a gate and a fallback is as sound as its builder. -/
theorem plain_sound {kind : ShapeKind} {params : List Param} {keys : List String}
    {builder : Builder}
    (hcases : (Shape.plain kind params keys builder).isBareCase = true → params = [])
    (h : builder.Sound Typed Foreseen P params
      ((Shape.plain kind params keys builder).label typeName)) :
    (Shape.plain kind params keys builder).Sound Typed Foreseen P typeName :=
  ⟨hcases, h, nofun, fun hgate => absurd rfl hgate⟩

theorem casesOf_sound {β : Type} (wrap : β → Value) {names : List (String × β)}
    (h : ∀ b, P (wrap b)) :
    ∀ shape ∈ casesOf wrap names, shape.Sound Typed Foreseen P typeName := by
  intro shape hshape
  obtain ⟨⟨name, b⟩, -, rfl⟩ := List.mem_map.mp hshape
  exact plain_sound (fun _ => rfl) (constant_sound (h b))

theorem asContextual_sound {shape : Shape} (h : shape.Sound Typed Foreseen P typeName) :
    shape.asContextual.Sound Typed Foreseen P typeName :=
  ⟨h.cases, h.builder, h.fallback, h.gate⟩

theorem schemeCase_sound (name : String) (dark light : Color) :
    (Shape.bareCase name (schemeColor dark light)).asContextual.Sound Typed Foreseen
      (Typed "Color") typeName :=
  asContextual_sound (plain_sound (fun _ => rfl) fun _ _ _ => .ok rfl)

theorem windowBackground_sound :
    ((Shape.bareCase "windowBackground" (.constant (.paint .windowBackground))).available
      ((Availability.only [.macos]).introducedIn .macos (.ofMinor 14 0))).Sound Typed Foreseen
      (Typed "Paint") "Paint" where
  cases _ := rfl
  builder := constant_sound rfl
  fallback := nofun
  gate _ _ platform required actual := .windowBackground platform required actual

theorem systemFont_shape_sound {params : List Param} {a : Availability} :
    (((Shape.staticFunction "system" (.labeled "size" (.leaf .float) :: params)
      systemFont).available a).withFallback undesignedFont).Sound Typed Foreseen (Typed "Font")
      "Font" where
  cases := nofun
  builder := systemFont_sound
  fallback builder hfallback := by
    cases hfallback
    exact undesignedFont_sound
  gate := nofun

/-! ## Catalogs -/

theorem namedCatalog_sound {β : Type} {wrap : β → Value} (names : List (String × β))
    (h : ∀ b, (wrap b).kind = kindOf typeName) :
    (namedCatalog typeName wrap names).Sound Typed Foreseen (Typed typeName) where
  literal leaf value hleaf hmakes := by
    cases hleaf
    exact leafOf_ofKind wrap h value hmakes
  shapes := casesOf_sound wrap h

theorem length_sound : length.Sound Typed Foreseen (Typed "Length") where
  literal leaf value hleaf hmakes := by
    cases hleaf
    exact float_ofKind value hmakes
  shapes := casesOf_sound .float fun _ => rfl

theorem color_sound : color.Sound Typed Foreseen (Typed "Color") where
  literal leaf value hleaf hmakes := by
    cases hleaf
    exact ofKind_uniform colorLiteral_kind value hmakes
  shapes shape hshape := by
    rcases List.mem_append.mp hshape with hshape | hshape
    · rcases List.mem_append.mp hshape with hshape | hshape
      · simp only [List.mem_cons, List.not_mem_nil, or_false] at hshape
        rcases hshape with rfl | rfl | rfl
        · exact plain_sound nofun colorOfHex_sound
        · exact plain_sound nofun colorOfComponents_sound
        · exact plain_sound nofun fadedColor_sound
      · exact casesOf_sound .color (fun _ => rfl) shape hshape
    · simp only [List.mem_cons, List.not_mem_nil, or_false] at hshape
      rcases hshape with rfl | rfl
      · exact schemeCase_sound _ _ _
      · exact schemeCase_sound _ _ _

theorem paint_sound : paint.Sound Typed Foreseen (Typed "Paint") where
  literal leaf value hleaf hmakes := by
    cases hleaf
    exact ofKind_uniform paintLiteral_kind value hmakes
  shapes shape hshape := by
    rcases List.mem_append.mp hshape with hshape | hshape
    · simp only [List.mem_cons, List.not_mem_nil, or_false] at hshape
      rcases hshape with rfl | rfl | rfl | rfl | rfl
      · exact plain_sound nofun solid_sound
      · exact plain_sound nofun tinted_sound
      · exact plain_sound nofun gradient_sound
      · exact plain_sound nofun fadedPaint_sound
      · exact windowBackground_sound
    · exact casesOf_sound .paint (fun _ => rfl) shape hshape

theorem font_sound : font.Sound Typed Foreseen (Typed "Font") where
  literal leaf value hleaf hmakes := by
    cases hleaf
    exact leafOf_ofKind .font (fun _ => rfl) value hmakes
  shapes shape hshape := by
    rcases List.mem_append.mp hshape with hshape | hshape
    · simp only [List.mem_cons, List.not_mem_nil, or_false] at hshape
      rcases hshape with rfl | rfl
      · exact systemFont_shape_sound
      · exact plain_sound nofun weightedFont_sound
    · exact casesOf_sound .font (fun _ => rfl) shape hshape

/-- **Every type of the standard vocabulary makes values of its kind.** -/
theorem types_sound :
    ∀ catalog ∈ types, catalog.Sound Typed Foreseen (Typed catalog.typeName) := by
  intro catalog hcatalog
  simp only [types, List.mem_cons, List.not_mem_nil, or_false] at hcatalog
  rcases hcatalog with rfl | rfl | rfl | rfl | rfl | rfl | rfl | rfl
  · exact length_sound
  · exact namedCatalog_sound _ fun _ => rfl
  · exact namedCatalog_sound _ fun _ => rfl
  · exact color_sound
  · exact paint_sound
  · exact font_sound
  · exact namedCatalog_sound _ fun _ => rfl
  · exact namedCatalog_sound _ fun _ => rfl

theorem single_sound {α : Type} [FromValue α] {make : α → Modifier} {name : String} {rule : Rule}
    (hgives : rule.Gives α) (hname : ∀ a, (make a).name = name) :
    (single name rule (ofValue α make)).Sound Typed Foreseen (Modifies name) where
  literal := nofun
  shapes shape hshape := by
    rw [List.mem_singleton.mp hshape]
    exact plain_sound nofun (ofValue_sound hgives hname)

theorem frame_sound : frame.Sound Typed Foreseen (Modifies "frame") where
  literal := nofun
  shapes shape hshape := by
    simp only [frame, List.mem_cons, List.not_mem_nil, or_false] at hshape
    rcases hshape with rfl | rfl
    · exact plain_sound nofun fixedFrame_sound
    · exact plain_sound nofun flexibleFrame_sound

theorem padding_sound : padding.Sound Typed Foreseen (Modifies "padding") where
  literal := nofun
  shapes shape hshape := by
    simp only [padding, List.mem_cons, List.not_mem_nil, or_false] at hshape
    rcases hshape with rfl | rfl
    · exact plain_sound nofun uniformPadding_sound
    · exact plain_sound nofun edgePadding_sound

theorem offset_sound : offset.Sound Typed Foreseen (Modifies "offset") where
  literal := nofun
  shapes shape hshape := by
    rw [List.mem_singleton.mp hshape]
    exact plain_sound nofun shift_sound

/-- **Every modifier of the standard vocabulary makes the modifier of its name.** -/
theorem modifiers_sound :
    ∀ catalog ∈ modifiers, catalog.Sound Typed Foreseen (Modifies catalog.typeName) := by
  intro catalog hcatalog
  simp only [modifiers, List.mem_cons, List.not_mem_nil, or_false] at hcatalog
  rcases hcatalog with rfl | rfl | rfl | rfl | rfl | rfl | rfl | rfl | rfl
  · exact frame_sound
  · exact padding_sound
  · exact single_sound (.type rfl) fun _ => rfl
  · exact single_sound (.type rfl) fun _ => rfl
  · exact single_sound (.leaf float_ofKind) fun _ => rfl
  · exact single_sound (.type rfl) fun _ => rfl
  · exact single_sound (.type rfl) fun _ => rfl
  · exact single_sound (.type rfl) fun _ => rfl
  · exact offset_sound

end Vocabulary

/-! ## Decoded nodes -/

theorem Catalog.Sound.forPlatform {P : Value → Prop} {catalog : Catalog}
    (h : catalog.Sound Typed Foreseen P) (platform : Platform) :
    (catalog.forPlatform platform).Sound Typed Foreseen P :=
  ⟨h.literal, fun shape hshape => h.shapes shape (List.mem_filter.mp hshape).1⟩

namespace Registry

variable {platform : Platform} {name : String} {catalog : Catalog}

theorem sound_of_catalog? (h : (standard platform).catalog? name = some catalog) :
    catalog.Sound Typed Foreseen (Typed name) := by
  rw [catalog?_standard] at h
  obtain ⟨source, hsource, rfl⟩ := Option.map_eq_some_iff.mp h
  rw [← typeName_of_lastNamed? hsource]
  exact (types_sound source (mem_of_lastNamed? hsource)).forPlatform platform

theorem sound_of_modifier? (h : (standard platform).modifier? name = some catalog) :
    catalog.Sound Typed Foreseen (Modifies name) := by
  rw [modifier?_standard] at h
  obtain ⟨source, hsource, rfl⟩ := Option.map_eq_some_iff.mp h
  rw [← typeName_of_lastNamed? hsource]
  exact (modifiers_sound source (mem_of_lastNamed? hsource)).forPlatform platform

theorem standard_registry_sound (platform : Platform) :
    (standard platform).Sound Typed Foreseen where
  types _ _ hcatalog := sound_of_catalog? hcatalog
  missing name reason := .attribute name reason

end Registry

theorem meets_of_decodeType {platform : Platform} {node : Node} {typeName : String} {r : Resolvable}
    (h : (Registry.standard platform).decoder.decodeType node typeName = .ok r)
    (context : Context) : Meets Foreseen (Typed typeName) (r.resolve context) := by
  obtain ⟨catalog, hcatalog, hdecode⟩ := Decoder.decodeType_ok h
  have hmeets := (decoded_of_decode hdecode).meets (Registry.standard_registry_sound platform)
    context
  exact hmeets _ (Registry.sound_of_catalog? hcatalog)

theorem meets_of_decodeModifier {platform : Platform} {node : Node} {r : Resolvable}
    (h : (Registry.standard platform).decoder.decodeModifier node = .ok r) (context : Context) :
    Meets Foreseen (fun m : Modifier => m.name = node.tag) (r.resolveAs Modifier context) := by
  obtain ⟨catalog, hcatalog, hdecode⟩ := Decoder.decodeModifier_ok h
  have hmeets := (decoded_of_decode hdecode).meets (Registry.standard_registry_sound platform)
    context
  have hvalue : Meets Foreseen (Modifies node.tag) (r.resolve context) :=
    hmeets _ (Registry.sound_of_modifier? hcatalog)
  unfold Resolvable.resolveAs
  revert hvalue
  generalize r.resolve context = result
  rintro (he | ⟨m, rfl, hname⟩)
  · exact .error he
  · exact .ok hname

/-- **The standard vocabulary is sound.**  On every platform and in every context, a node decoded as
a type has a value of this type, a node decoded as a modifier has the modifier it is tagged with,
and all other results are foreseen errors. -/
theorem standard_vocabulary_sound (platform : Platform) (node : Node) (context : Context) :
    (∀ typeName r, (Registry.standard platform).decoder.decodeType node typeName = .ok r →
      Meets Foreseen (Typed typeName) (r.resolve context)) ∧
    ∀ r, (Registry.standard platform).decoder.decodeModifier node = .ok r →
      Meets Foreseen (fun m : Modifier => m.name = node.tag) (r.resolveAs Modifier context) := by
  constructor
  · intro typeName r h
    exact meets_of_decodeType h context
  · intro r h
    exact meets_of_decodeModifier h context

/-- A gradient with an attribute among its stops, and a background with this gradient. -/
theorem standard_vocabulary_sound_gradient :
    let decoder := (Registry.standard .macos).decoder
    let gradient : Node := Node.member (some "gradient")
      [⟨some "stops", .list [.literal (.string "red"), .reference "tint" .empty]⟩]
    let background : Node := ⟨"background", .empty, none, [⟨none, .call gradient⟩]⟩
    ∃ r r', decoder.decodeType gradient "Paint" = .ok r ∧
      decoder.decodeModifier background = .ok r' ∧
      ∀ context, Meets Foreseen (Typed "Paint") (r.resolve context) ∧
        Meets Foreseen (fun m : Modifier => m.name = "background")
          (r'.resolveAs Modifier context) := by
  intro decoder gradient background
  have hpaint : (decoder.decodeType gradient "Paint").isOk = true := by decide +kernel
  have hbackground : (decoder.decodeModifier background).isOk = true := by decide +kernel
  obtain ⟨r, hr⟩ := exists_ok_of_isOk hpaint
  obtain ⟨r', hr'⟩ := exists_ok_of_isOk hbackground
  refine ⟨r, r', hr, hr', fun context => ⟨?_, ?_⟩⟩
  · exact (standard_vocabulary_sound .macos gradient context).1 "Paint" r hr
  · exact (standard_vocabulary_sound .macos background context).2 r' hr'

end DeferredStyle
