import DeferredStyle.Proofs.Invariants
import DeferredStyle.Proofs.Inventory
import DeferredStyle.Proofs.Soundness

/-!
# Availability

The background of a window exists on macOS only, from 14.0 on; designs of system fonts exist from
iOS 16.1 and macOS 13.0 on.  Catalogs are reduced to a platform when they are registered, and gates
are asked at every resolution.  Together this keeps both out of every value that a tree of the
standard vocabulary resolves to on a system that lacks them.

* `Value.ShowsWindow`, `Value.HasDesign` — where a window's background or a design may stand.
* `Permitted` — what the system lacks is not in the value.
* `Vocabulary.HasShape.keeps` — every shape of the vocabulary makes permitted values.
* `availability_enforced` — the values of decoded nodes are permitted.
-/

set_option autoImplicit false

namespace DeferredStyle

/-! ## What values contain -/

/-- The paint is the background of a window, perhaps with less opacity. -/
def Paint.ShowsWindow : Paint → Prop
  | windowBackground => True
  | opacity base _ => base.ShowsWindow
  | _ => False

/-- The modifier paints with the background of a window. -/
def Modifier.ShowsWindow : Modifier → Prop
  | foregroundStyle paint => paint.ShowsWindow
  | background paint => paint.ShowsWindow
  | _ => False

/-- The background of a window is in the value. -/
inductive Value.ShowsWindow : Value → Prop
  | paint {p : Paint} (h : p.ShowsWindow) : ShowsWindow (.paint p)
  | modifier {m : Modifier} (h : m.ShowsWindow) : ShowsWindow (.modifier m)
  | list {items : List Value} {item : Value} (hitem : item ∈ items) (h : ShowsWindow item) :
      ShowsWindow (.list items)

/-- The font is a system font with a design. -/
def Font.HasDesign : Font → Prop
  | system _ _ design => design.isSome = true
  | style _ _ => False

/-- The modifier sets a font with a design. -/
def Modifier.HasDesign : Modifier → Prop
  | font f => f.HasDesign
  | _ => False

/-- A font with a design is in the value. -/
inductive Value.HasDesign : Value → Prop
  | font {f : Font} (h : f.HasDesign) : HasDesign (.font f)
  | modifier {m : Modifier} (h : m.HasDesign) : HasDesign (.modifier m)
  | list {items : List Value} {item : Value} (hitem : item ∈ items) (h : HasDesign item) :
      HasDesign (.list items)

/-! ## What can be computed -/

/-- Whether a paint shows a window is seen below its opacities. -/
def Paint.decidableShowsWindow : (p : Paint) → Decidable p.ShowsWindow
  | windowBackground => .isTrue trivial
  | opacity base _ => base.decidableShowsWindow
  | solid _ | tinted _ | gradient _ | material _ => .isFalse id

instance (p : Paint) : Decidable p.ShowsWindow := p.decidableShowsWindow

instance (m : Modifier) : Decidable m.ShowsWindow :=
  match m with
  | .foregroundStyle p => inferInstanceAs (Decidable p.ShowsWindow)
  | .background p => inferInstanceAs (Decidable p.ShowsWindow)
  | .frame .. | .flexFrame .. | .padding .. | .opacity _ | .font _ | .fontWeight _
  | .cornerRadius _ | .offset .. => .isFalse id

instance (f : Font) : Decidable f.HasDesign :=
  match f with
  | .system _ _ design => inferInstanceAs (Decidable (design.isSome = true))
  | .style .. => .isFalse id

/-! ## What systems have -/

/-- What a system may not have is not in the value, for a vocabulary of `platform` that is used in
`environment`. -/
structure Permitted (platform : Platform) (environment : Environment) (value : Value) : Prop where
  window : value.ShowsWindow →
    platform = .macos ∧
      ¬(environment.platform = .macos ∧ environment.runtimeVersion < .ofMinor 14 0)
  design : value.HasDesign →
    ¬(environment.platform = .ios ∧ environment.runtimeVersion < .ofMinor 16 1) ∧
      ¬(environment.platform = .macos ∧ environment.runtimeVersion < .ofMinor 13 0)

variable {platform : Platform} {environment : Environment}

namespace Permitted

/-- Values of most kinds have neither in them. -/
theorem of_kind {value : Value} (h : value.kind ∉ ["Paint", "Font", "Modifier", "Array"]) :
    Permitted platform environment value where
  window hshows := by
    cases hshows <;> simp [Value.kind] at h
  design hdesign := by
    cases hdesign <;> simp [Value.kind] at h

theorem list {items : List Value} (h : ∀ item ∈ items, Permitted platform environment item) :
    Permitted platform environment (.list items) where
  window hshows := by
    cases hshows with
    | list hitem hshows => exact (h _ hitem).window hshows
  design hdesign := by
    cases hdesign with
    | list hitem hdesign => exact (h _ hitem).design hdesign

/-- Paints permit each other if they show the same windows. -/
theorem paint_congr {value : Value} {p : Paint} (h : Permitted platform environment value)
    (hshows : p.ShowsWindow → value.ShowsWindow) : Permitted platform environment (.paint p) where
  window hp := by
    cases hp with
    | paint hp => exact h.window (hshows hp)
  design hp := by cases hp

/-- Fonts permit each other if they have designs alike. -/
theorem font_congr {value : Value} {f : Font} (h : Permitted platform environment value)
    (hdesign : f.HasDesign → value.HasDesign) : Permitted platform environment (.font f) where
  window hf := by cases hf
  design hf := by
    cases hf with
    | font hf => exact h.design (hdesign hf)

/-- A modifier has in it what its argument has. -/
theorem modifier_congr {value : Value} {m : Modifier} (h : Permitted platform environment value)
    (hshows : m.ShowsWindow → value.ShowsWindow) (hdesign : m.HasDesign → value.HasDesign) :
    Permitted platform environment (.modifier m) where
  window hm := by
    cases hm with
    | modifier hm => exact h.window (hshows hm)
  design hm := by
    cases hm with
    | modifier hm => exact h.design (hdesign hm)

theorem nil : Permitted platform environment .nil :=
  of_kind (by decide)

theorem color (c : Color) : Permitted platform environment (.color c) := by
  apply of_kind
  simp [Value.kind]

/-- A paint that shows no window is permitted everywhere. -/
theorem paint {p : Paint} (h : ¬p.ShowsWindow) : Permitted platform environment (.paint p) :=
  nil.paint_congr fun hp => absurd hp h

/-- A font without a design is permitted everywhere. -/
theorem font {f : Font} (h : ¬f.HasDesign) : Permitted platform environment (.font f) :=
  nil.font_congr fun hf => absurd hf h

/-- A modifier with neither is permitted everywhere. -/
theorem modifier {m : Modifier} (hshows : ¬m.ShowsWindow) (hdesign : ¬m.HasDesign) :
    Permitted platform environment (.modifier m) :=
  nil.modifier_congr (fun hm => absurd hm hshows) fun hm => absurd hm hdesign

end Permitted

/-! ## Gates -/

/-- A gate lets a shape pass unless the running system is older than the gate's version for it. -/
theorem RuntimeGate.check_eq_ok_iff {gate : RuntimeGate} :
    gate.check environment = .ok () ↔
      ∀ required, gate.required? environment.platform = some required →
        ¬environment.runtimeVersion < required := by
  unfold check
  cases gate.required? environment.platform with
  | none => simp
  | some required => by_cases h : environment.runtimeVersion < required <;> simp [h]

/-- A gated shape uses its own builder where the gate lets it pass, and its fallback elsewhere. -/
theorem selectBuilder_gated {label : String} {builder selected : Builder}
    {fallback : Option Builder} {gate : RuntimeGate}
    (h : selectBuilder label builder fallback (some gate) environment = .ok selected) :
    gate.check environment = .ok () ∧ selected = builder ∨ fallback = some selected := by
  simp only [selectBuilder] at h
  split at h
  · rename_i hcheck
    cases h
    exact .inl ⟨hcheck, rfl⟩
  · split at h
    · rename_i fallback
      cases h
      exact .inr rfl
    · cases h

/-! ## Arguments -/

theorem eq_paint_of_fromValue? {value : Value} {p : Paint}
    (h : FromValue.fromValue? value = some p) : value = .paint p := by
  cases value <;> cases h
  rfl

theorem Font.hasDesign_withWeight {f : Font} {weight : FontWeight} :
    (f.withWeight weight).HasDesign ↔ f.HasDesign := by
  cases f <;> exact .rfl

theorem eq_font_of_fromValue? {value : Value} {f : Font}
    (h : FromValue.fromValue? value = some f) : value = .font f := by
  cases value <;> cases h
  rfl

theorem eq_modifier_of_fromValue? {value : Value} {m : Modifier}
    (h : FromValue.fromValue? value = some m) : value = .modifier m := by
  cases value <;> cases h
  rfl

namespace Resolvable

variable {r : Resolvable} {context : Context}

theorem exists_of_resolveAs {α : Type} [FromValue α] {a : α} (h : r.resolveAs α context = .ok a) :
    ∃ value, r.resolve context = .ok value ∧ FromValue.fromValue? value = some a := by
  unfold resolveAs castTo at h
  split at h
  · cases h
  · rename_i value hvalue
    split at h
    · rename_i b hb
      cases h
      exact ⟨value, hvalue, hb⟩
    · cases h

theorem resolve_of_resolveAs_font {f : Font} (h : r.resolveAs Font context = .ok f) :
    r.resolve context = .ok (.font f) := by
  obtain ⟨value, hvalue, hfont⟩ := exists_of_resolveAs h
  rw [hvalue, eq_font_of_fromValue? hfont]

theorem resolve_of_resolveAs_modifier {m : Modifier} (h : r.resolveAs Modifier context = .ok m) :
    r.resolve context = .ok (.modifier m) := by
  obtain ⟨value, hvalue, hmodifier⟩ := exists_of_resolveAs h
  rw [hvalue, eq_modifier_of_fromValue? hmodifier]

end Resolvable

/-! ## Builders -/

namespace Vocabulary

theorem constant_keeps {value : Value} (h : Permitted platform environment value) :
    (Builder.constant value).Keeps (Permitted platform environment) := by
  intro args made _ hmade
  cases hmade
  exact h

theorem schemeColor_keeps (dark light : Color) :
    (schemeColor dark light).Keeps (Permitted platform environment) := by
  intro args made _ hmade
  cases hmade
  exact .color _

theorem colorOfHex_keeps : colorOfHex.Keeps (Permitted platform environment) := by
  intro args made _ hmade
  obtain ⟨-, color, -, -, hmade⟩ := Args.exists_of_bind_value hmade
  cases hmade
  exact .color color

theorem colorOfComponents_keeps : colorOfComponents.Keeps (Permitted platform environment) := by
  intro args made _ hmade
  obtain ⟨-, red, -, -, hmade⟩ := Args.exists_of_bind_value hmade
  obtain ⟨-, green, -, -, hmade⟩ := Args.exists_of_bind_value hmade
  obtain ⟨-, blue, -, -, hmade⟩ := Args.exists_of_bind_value hmade
  obtain ⟨-, opacity, -, -, hmade⟩ := Args.exists_of_bind_value hmade
  cases hmade
  exact .color _

theorem fadedColor_keeps : fadedColor.Keeps (Permitted platform environment) := by
  intro args made _ hmade
  obtain ⟨-, base, -, -, hmade⟩ := Args.exists_of_bind_value hmade
  obtain ⟨-, factor, -, -, hmade⟩ := Args.exists_of_bind_value hmade
  cases hmade
  exact .color _

theorem solid_keeps : solid.Keeps (Permitted platform environment) := by
  intro args made _ hmade
  obtain ⟨-, color, -, -, hmade⟩ := Args.exists_of_bind_value hmade
  cases hmade
  exact .paint id

theorem tinted_keeps : tinted.Keeps (Permitted platform environment) := by
  intro args made _ hmade
  obtain ⟨-, color, -, -, hmade⟩ := Args.exists_of_bind_value hmade
  cases hmade
  exact .paint id

theorem gradient_keeps : gradient.Keeps (Permitted platform environment) := by
  intro args made _ hmade
  obtain ⟨-, stops, -, -, hmade⟩ := Args.exists_of_bind_value hmade
  split at hmade
  · cases hmade
  · cases hmade
    exact .paint id

/-- A paint with less opacity shows a window if the paint itself does. -/
theorem fadedPaint_keeps : fadedPaint.Keeps (Permitted platform environment) := by
  intro args made hargs hmade
  obtain ⟨child, base, hchild, hbase, hmade⟩ := Args.exists_of_bind_value hmade
  obtain ⟨-, amount, -, -, hmade⟩ := Args.exists_of_bind_value hmade
  cases hmade
  rw [eq_paint_of_fromValue? hbase] at hchild
  exact (hargs _ hchild).paint_congr fun hshows => .paint hshows

/-- A system font is made only where designs exist. -/
theorem systemFont_keeps
    (h : ¬(environment.platform = .ios ∧ environment.runtimeVersion < .ofMinor 16 1) ∧
      ¬(environment.platform = .macos ∧ environment.runtimeVersion < .ofMinor 13 0)) :
    systemFont.Keeps (Permitted platform environment) := by
  intro args made _ hmade
  obtain ⟨-, size, -, -, hmade⟩ := Args.exists_of_bind_value hmade
  cases hmade
  exact ⟨fun hshows => (by cases hshows), fun _ => h⟩

theorem undesignedFont_keeps : undesignedFont.Keeps (Permitted platform environment) := by
  intro args made _ hmade
  obtain ⟨-, size, -, -, hmade⟩ := Args.exists_of_bind_value hmade
  cases hmade
  exact .font Bool.false_ne_true

/-- A font in another weight has the design of the font itself. -/
theorem weightedFont_keeps : weightedFont.Keeps (Permitted platform environment) := by
  intro args made hargs hmade
  obtain ⟨child, base, hchild, hbase, hmade⟩ := Args.exists_of_bind_value hmade
  obtain ⟨-, weight, -, -, hmade⟩ := Args.exists_of_bind_value hmade
  cases hmade
  rw [eq_font_of_fromValue? hbase] at hchild
  exact (hargs _ hchild).font_congr fun h => .font (Font.hasDesign_withWeight.mp h)

theorem fixedFrame_keeps : fixedFrame.Keeps (Permitted platform environment) := by
  intro args made _ hmade
  obtain ⟨-, alignment, -, -, hmade⟩ := Args.exists_of_bind_value hmade
  cases hmade
  exact .modifier id id

theorem flexibleFrame_keeps : flexibleFrame.Keeps (Permitted platform environment) := by
  intro args made _ hmade
  obtain ⟨-, alignment, -, -, hmade⟩ := Args.exists_of_bind_value hmade
  cases hmade
  exact .modifier id id

theorem uniformPadding_keeps : uniformPadding.Keeps (Permitted platform environment) := by
  intro args made _ hmade
  obtain ⟨-, length, -, -, hmade⟩ := Args.exists_of_bind_value hmade
  cases hmade
  exact .modifier id id

theorem edgePadding_keeps : edgePadding.Keeps (Permitted platform environment) := by
  intro args made _ hmade
  obtain ⟨-, edges, -, -, hmade⟩ := Args.exists_of_bind_value hmade
  cases hmade
  exact .modifier id id

theorem shift_keeps : shift.Keeps (Permitted platform environment) := by
  intro args made _ hmade
  obtain ⟨-, x, -, -, hmade⟩ := Args.exists_of_bind_value hmade
  obtain ⟨-, y, -, -, hmade⟩ := Args.exists_of_bind_value hmade
  cases hmade
  exact .modifier id id

/-- A modifier of one value has in it at most what the value has. -/
theorem ofValue_keeps {α : Type} [FromValue α] {make : α → Modifier}
    (h : ∀ child a, FromValue.fromValue? child = some a →
      ((make a).ShowsWindow → child.ShowsWindow) ∧ ((make a).HasDesign → child.HasDesign)) :
    (ofValue α make).Keeps (Permitted platform environment) := by
  intro args made hargs hmade
  obtain ⟨child, a, hchild, ha, hmade⟩ := Args.exists_of_bind_value hmade
  cases hmade
  exact (hargs child hchild).modifier_congr (h child a ha).1 (h child a ha).2

/-! ## Shapes -/

/-- A shape without a gate uses its own builder. -/
theorem plain_keeps {kind : ShapeKind} {params : List Param} {keys : List String}
    {builder : Builder}
    (hparams : ∀ param ∈ params, param.rule.Keeps (Permitted platform environment))
    (h : builder.Keeps (Permitted platform environment)) :
    (Shape.plain kind params keys builder).Keeps (Permitted platform environment) environment where
  params := hparams
  builder label selected hselected := by
    cases hselected
    exact h

theorem asContextual_keeps {shape : Shape}
    (h : shape.Keeps (Permitted platform environment) environment) :
    shape.asContextual.Keeps (Permitted platform environment) environment :=
  ⟨h.params, h.builder⟩

theorem float_keeps : (Rule.leaf .float).Keeps (Permitted platform environment) := by
  intro value hmakes
  apply Permitted.of_kind
  simp [float_ofKind value hmakes]

theorem hexLeaf_keeps : (Rule.leaf hexLeaf).Keeps (Permitted platform environment) := by
  intro value hmakes
  apply Permitted.of_kind
  simp [hexLeaf_ofKind value hmakes]

/-- The window's background exists on macOS only, and its gate asks for 14.0 there. -/
theorem windowBackground_keeps (havailable : platform = .macos) :
    ((Shape.bareCase "windowBackground" (.constant (.paint .windowBackground))).available
      ((Availability.only [.macos]).introducedIn .macos (.ofMinor 14 0))).Keeps
      (Permitted platform environment) environment where
  params := nofun
  builder label selected hselected := by
    rcases selectBuilder_gated hselected with ⟨hcheck, rfl⟩ | hfallback
    · refine constant_keeps ⟨fun _ => ⟨havailable, ?_⟩, fun hdesign => by cases hdesign⟩
      rintro ⟨hmacos, hold⟩
      exact RuntimeGate.check_eq_ok_iff.mp hcheck (.ofMinor 14 0) (by rw [hmacos]; rfl) hold
    · cases hfallback

/-- The gate of system fonts asks for the versions that introduced designs. -/
theorem systemFont_shape_keeps {params : List Param}
    (hparams : ∀ param ∈ params, param.rule.Keeps (Permitted platform environment)) :
    (((Shape.staticFunction "system" params systemFont).available
      ((Availability.everywhere.introducedIn .ios (.ofMinor 16 1)).introducedIn .macos
        (.ofMinor 13 0))).withFallback undesignedFont).Keeps
      (Permitted platform environment) environment where
  params := hparams
  builder label selected hselected := by
    rcases selectBuilder_gated hselected with ⟨hcheck, rfl⟩ | hfallback
    · have hnew := RuntimeGate.check_eq_ok_iff.mp hcheck
      refine systemFont_keeps ⟨?_, ?_⟩
      · rintro ⟨hios, hold⟩
        exact hnew (.ofMinor 16 1) (by rw [hios]; rfl) hold
      · rintro ⟨hmacos, hold⟩
        exact hnew (.ofMinor 13 0) (by rw [hmacos]; rfl) hold
    · cases hfallback
      exact undesignedFont_keeps

theorem named_keeps {typeName : String} {value : Value} (h : Named typeName value) :
    Permitted platform environment value := by
  cases h with
  | material => exact .paint id
  | textStyle => exact .font id
  | _ =>
    apply Permitted.of_kind
    simp [Value.kind]

theorem HasShape.params_keep {typeName : String} {shape : Shape} (h : HasShape typeName shape) :
    ∀ param ∈ shape.params, param.rule.Keeps (Permitted platform environment) := by
  have hfloat : (Rule.leaf .float).Keeps (Permitted platform environment) := float_keeps
  have hhex : (Rule.leaf hexLeaf).Keeps (Permitted platform environment) := hexLeaf_keeps
  cases h <;>
    simp [Shape.initializer, Shape.enumCase, Shape.bareCase, Shape.method, Shape.staticFunction,
      Shape.plain, Shape.available, Shape.withFallback, Shape.asContextual, Param.positional,
      Param.labeled, Param.withDefault, optionalParam, optionalLength, alignmentParam, lengthRule,
      hfloat, hhex]

/-- **Every shape that exists on the platform makes permitted values.** -/
theorem HasShape.keeps {typeName : String} {shape : Shape} (h : HasShape typeName shape)
    (havailable : shape.availability.isAvailableOn platform = true) :
    shape.Keeps (Permitted platform environment) environment := by
  have hparams : ∀ param ∈ shape.params, param.rule.Keeps (Permitted platform environment) :=
    h.params_keep
  cases h with
  | named name hvalue => exact plain_keeps hparams (constant_keeps (named_keeps hvalue))
  | hexColor => exact plain_keeps hparams colorOfHex_keeps
  | componentColor => exact plain_keeps hparams colorOfComponents_keeps
  | fadedColor => exact plain_keeps hparams fadedColor_keeps
  | schemeColor => exact asContextual_keeps (plain_keeps hparams (schemeColor_keeps _ _))
  | solid => exact plain_keeps hparams solid_keeps
  | tinted => exact plain_keeps hparams tinted_keeps
  | gradient => exact plain_keeps hparams gradient_keeps
  | fadedPaint => exact plain_keeps hparams fadedPaint_keeps
  | windowBackground =>
    refine windowBackground_keeps ?_
    cases platform <;> first | rfl | cases havailable
  | systemFont => exact systemFont_shape_keeps hparams
  | weightedFont => exact plain_keeps hparams weightedFont_keeps
  | fixedFrame => exact plain_keeps hparams fixedFrame_keeps
  | flexibleFrame => exact plain_keeps hparams flexibleFrame_keeps
  | uniformPadding => exact plain_keeps hparams uniformPadding_keeps
  | edgePadding => exact plain_keeps hparams edgePadding_keeps
  | foregroundStyle | background =>
    refine plain_keeps hparams (ofValue_keeps fun child paint hchild => ?_)
    rw [eq_paint_of_fromValue? hchild]
    exact ⟨.paint, False.elim⟩
  | font =>
    refine plain_keeps hparams (ofValue_keeps fun child font hchild => ?_)
    rw [eq_font_of_fromValue? hchild]
    exact ⟨False.elim, .font⟩
  | opacity | fontWeight | cornerRadius =>
    exact plain_keeps hparams (ofValue_keeps fun _ _ _ => ⟨False.elim, False.elim⟩)
  | shift => exact plain_keeps hparams shift_keeps

/-! ## Catalogs -/

/-- A decoder of names makes the values of its table. -/
theorem exists_of_leafOf_makes {β : Type} {typeName : String} {wrap : β → Value}
    {names : List (String × β)} {value : Value} (h : (leafOf typeName wrap names).Makes value) :
    ∃ entry ∈ names, wrap entry.2 = value := by
  obtain ⟨literal, hmade⟩ := h
  replace hmade : Leaf.namedLiteral typeName (valueNamed? wrap names) literal = .ok value :=
    or_self_iff.mp hmade
  unfold Leaf.namedLiteral at hmade
  split at hmade
  · split at hmade
    · rename_i v hv
      cases hmade
      obtain ⟨b, hb, rfl⟩ := Option.map_eq_some_iff.mp hv
      exact ⟨_, mem_of_lookup? hb, rfl⟩
    · cases hmade
  · cases hmade

/-- A bare color paints solid. -/
theorem paintLeaf_keeps {value : Value} (h : paintLeaf.Makes value) :
    Permitted platform environment value := by
  obtain ⟨literal, hmade⟩ := h
  replace hmade : paintLiteral literal = .ok value := or_self_iff.mp hmade
  unfold paintLiteral at hmade
  split at hmade <;> cases hmade
  exact .paint id

/-- The literals of types stand for permitted values. -/
theorem literal_keeps : ∀ catalog ∈ types, ∀ leaf value, catalog.literal = some leaf →
    leaf.Makes value → Permitted platform environment value := by
  intro catalog hcatalog leaf value hleaf hmakes
  have hkind := (types_sound catalog hcatalog).literal leaf value hleaf hmakes
  simp only [types, List.mem_cons, List.not_mem_nil, or_false] at hcatalog
  by_cases hpaint : catalog = Vocabulary.paint
  · subst hpaint
    cases hleaf
    exact paintLeaf_keeps hmakes
  by_cases hfont : catalog = Vocabulary.font
  · subst hfont
    cases hleaf
    obtain ⟨entry, hentry, rfl⟩ := exists_of_leafOf_makes hmakes
    exact named_keeps (named_of_mem_textStyles entry hentry)
  -- the values of all other types are of kinds that have neither in them
  · refine .of_kind ?_
    rw [hkind]
    rcases hcatalog with rfl | rfl | rfl | rfl | rfl | rfl | rfl | rfl
    all_goals first | exact absurd rfl hpaint | exact absurd rfl hfont | decide

/-- Modifiers have no literals. -/
theorem literal_of_mem_modifiers : ∀ catalog ∈ modifiers, catalog.literal = none := by
  intro catalog hcatalog
  simp only [modifiers, List.mem_cons, List.not_mem_nil, or_false] at hcatalog
  rcases hcatalog with rfl | rfl | rfl | rfl | rfl | rfl | rfl | rfl | rfl <;> rfl

end Vocabulary

open Vocabulary

/-! ## Decoded nodes -/

namespace Registry

theorem keeps_of_registers {catalog : Catalog} (h : (standard platform).Registers catalog) :
    catalog.Keeps (Permitted platform environment) environment where
  literal leaf value hleaf hmakes := by
    obtain ⟨source, hsource | hsource, rfl⟩ := exists_of_registers h
    · exact literal_keeps source hsource leaf value hleaf hmakes
    · rw [Catalog.forPlatform, literal_of_mem_modifiers source hsource] at hleaf
      cases hleaf
  shapes shape hshape :=
    (hasShape_of_registers h shape hshape).1.keeps (hasShape_of_registers h shape hshape).2

theorem standard_keeps (platform : Platform) (environment : Environment) :
    (standard platform).Keeps (Permitted platform environment) environment where
  nil := .nil
  list _ h := .list h
  types name _ hcatalog := keeps_of_registers (.inl ⟨name, hcatalog⟩)

end Registry

theorem Decoded.permitted {folds : Bool} {catalog : Catalog} {r : Resolvable} {context : Context}
    {value : Value} (h : Decoded ⟨.standard platform, folds⟩ (.catalog catalog) r)
    (hcatalog : (Registry.standard platform).Registers catalog)
    (hvalue : r.resolve context = .ok value) : Permitted platform context.environment value :=
  h.keeps (Registry.standard_keeps platform context.environment)
    (Registry.keeps_of_registers hcatalog) hvalue

/-- **Availability is enforced.**  If the value of a decoded node has the background of a window in
it, the vocabulary is that of macOS, and the running system is not macOS before 14.0.  If it has a
font with a design in it, the running system is neither iOS before 16.1 nor macOS before 13.0. -/
theorem availability_enforced (platform : Platform) (folds : Bool) (node : Node) (r : Resolvable)
    (context : Context) (value : Value)
    (hdecode :
      (∃ typeName, (⟨.standard platform, folds⟩ : Decoder).decodeType node typeName = .ok r) ∨
        (⟨.standard platform, folds⟩ : Decoder).decodeModifier node = .ok r)
    (hvalue : r.resolve context = .ok value) :
    (value.ShowsWindow → platform = .macos ∧
      ¬(context.environment.platform = .macos ∧
        context.environment.runtimeVersion < .ofMinor 14 0)) ∧
    (value.HasDesign →
      ¬(context.environment.platform = .ios ∧
        context.environment.runtimeVersion < .ofMinor 16 1) ∧
      ¬(context.environment.platform = .macos ∧
        context.environment.runtimeVersion < .ofMinor 13 0)) := by
  have hpermitted : Permitted platform context.environment value := by
    rcases hdecode with ⟨typeName, hdecode⟩ | hdecode
    · obtain ⟨catalog, hcatalog, hdecode⟩ := Decoder.decodeType_ok hdecode
      exact (decoded_of_decode hdecode).permitted (.inl ⟨typeName, hcatalog⟩) hvalue
    · obtain ⟨catalog, hcatalog, hdecode⟩ := Decoder.decodeModifier_ok hdecode
      exact (decoded_of_decode hdecode).permitted (.inr ⟨node.tag, hcatalog⟩) hvalue
  exact ⟨hpermitted.window, hpermitted.design⟩

/-- A faded background of a window and a weighted font with a design, on macOS 14.2. -/
theorem availability_enforced_macos :
    let decoder := (Registry.standard .macos).decoder
    let window : Node := Node.member (some "opacity")
      [⟨none, .call (Node.member (some "windowBackground") [])⟩, ⟨none, .literal (.float 0.5)⟩]
    let serif : Node := Node.member (some "weight")
      [⟨none, .call (Node.member (some "system")
        [⟨some "size", .reference "size" .empty⟩, ⟨some "design", .literal (.string "serif")⟩])⟩,
        ⟨none, .literal (.string "bold")⟩]
    let context : Context :=
      .ofElement (Element.empty.set "size" (.float 12.0)) (.ofRuntime .macos (.ofMinor 14 2))
    ∃ r r' m f,
      decoder.decodeModifier ⟨"background", .empty, none, [⟨none, .call window⟩]⟩ = .ok r ∧
      r.resolve context = .ok (.modifier m) ∧ m.ShowsWindow ∧
      decoder.decodeType serif "Font" = .ok r' ∧ r'.resolve context = .ok (.font f) ∧
      f.HasDesign ∧
      ¬(context.environment.platform = .macos ∧
        context.environment.runtimeVersion < .ofMinor 14 0) ∧
      ¬(context.environment.platform = .macos ∧
        context.environment.runtimeVersion < .ofMinor 13 0) := by
  intro decoder window serif context
  have hwindow : ((decoder.decodeModifier ⟨"background", .empty, none,
      [⟨none, .call window⟩]⟩).toOption.any fun r =>
        (r.resolveAs Modifier context).toOption.any fun m => m.ShowsWindow) = true := by
    decide +kernel
  have hserif : ((decoder.decodeType serif "Font").toOption.any fun r =>
      (r.resolveAs Font context).toOption.any fun f => f.HasDesign) = true := by
    decide +kernel
  obtain ⟨r, hr, hwindow⟩ := (Option.any_eq_true _ _).mp hwindow
  obtain ⟨m, hm, hshows⟩ := (Option.any_eq_true _ _).mp hwindow
  obtain ⟨r', hr', hserif⟩ := (Option.any_eq_true _ _).mp hserif
  obtain ⟨f, hf, hdesign⟩ := (Option.any_eq_true _ _).mp hserif
  replace hr := toOption_eq_some_iff.mp hr
  replace hr' := toOption_eq_some_iff.mp hr'
  replace hm := Resolvable.resolve_of_resolveAs_modifier (toOption_eq_some_iff.mp hm)
  replace hf := Resolvable.resolve_of_resolveAs_font (toOption_eq_some_iff.mp hf)
  replace hshows := of_decide_eq_true hshows
  replace hdesign := of_decide_eq_true hdesign
  refine ⟨r, r', m, f, hr, hm, hshows, hr', hf, hdesign, ?_, ?_⟩
  · exact ((availability_enforced .macos true _ r context _ (.inr hr) hm).1
      (.modifier hshows)).2
  · exact ((availability_enforced .macos true _ r' context _ (.inl ⟨"Font", hr'⟩) hf).2
      (.font hdesign)).2

end DeferredStyle
