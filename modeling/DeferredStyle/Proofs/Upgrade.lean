import DeferredStyle.Proofs.Attributes
import DeferredStyle.Proofs.Environment
import DeferredStyle.Proofs.Gating
import DeferredStyle.Proofs.Locality
import DeferredStyle.Proofs.Reachability

/-!
# Newer systems

What resolves on a system resolves on every newer version of it, to the same value up to the designs
of system fonts, which a newer version may add.

Gates let more shapes pass as versions grow, so that results can only appear.  But an optional
parameter takes a result that fails for an absent one, and there an error that disappears would
change the value.  The types that optional parameters name are *steady*: no version tells their
results apart, errors included.

* `Value.Gains` — the same value up to designs, with all designs of the first.
* `Grows` — whatever the first result gives, the second gives as much.
* `Builder.Grows`, `Vocabulary.HasShape.follows` — one builder, one shape of the vocabulary.
* `Decoded.follows` — decoded trees, by induction.
* `resolve_upgrade` — the values of decoded nodes.
-/

set_option autoImplicit false

namespace DeferredStyle

/-! ## Designs -/

/-- A font without its design. -/
def Font.eraseDesign : Font → Font
  | system size weight _ => system size weight none
  | style s weight => style s weight

/-- The design of a font. -/
def Font.design? : Font → Option FontDesign
  | system _ _ design => design
  | style _ _ => none

/-- A modifier without the design of its font. -/
def Modifier.eraseDesign : Modifier → Modifier
  | font f => font f.eraseDesign
  | m => m

/-- The font of a modifier. -/
def Modifier.fonts : Modifier → List Font
  | font f => [f]
  | _ => []

namespace Value

mutual

/-- A value without the designs of the fonts inside it. -/
def eraseDesigns : Value → Value
  | font f => font f.eraseDesign
  | modifier m => modifier m.eraseDesign
  | list items => list (eraseDesignsEach items)
  | value => value

/-- Values without the designs of the fonts inside them. -/
def eraseDesignsEach : List Value → List Value
  | [] => []
  | item :: items => item.eraseDesigns :: eraseDesignsEach items

end

mutual

/-- The fonts inside a value, from left to right. -/
def fonts : Value → List Font
  | font f => [f]
  | modifier m => m.fonts
  | list items => fontsEach items
  | _ => []

/-- The fonts inside several values. -/
def fontsEach : List Value → List Font
  | [] => []
  | item :: items => item.fonts ++ fontsEach items

end

end Value

/-- The second font has the design of the first, if that has one. -/
def Font.KeepsDesign (f f' : Font) : Prop :=
  ∀ design, f.design? = some design → f'.design? = some design

/-- The fonts are the same up to designs, and the second has the design of the first. -/
structure Font.Gains (f f' : Font) : Prop where
  erased : f.eraseDesign = f'.eraseDesign
  design : f.KeepsDesign f'

/-- The values are the same up to designs, and the second has all designs of the first. -/
structure Value.Gains (value value' : Value) : Prop where
  erased : value.eraseDesigns = value'.eraseDesigns
  designs : List.Forall₂ Font.KeepsDesign value.fonts value'.fonts

theorem Font.Gains.withWeight {f f' : Font} (h : f.Gains f') (weight : FontWeight) :
    (f.withWeight weight).Gains (f'.withWeight weight) := by
  obtain ⟨herased, hdesign⟩ := h
  cases f <;> cases f' <;> cases herased
  · exact ⟨rfl, hdesign⟩
  · exact ⟨rfl, hdesign⟩

namespace Value.Gains

theorem refl (value : Value) : value.Gains value :=
  ⟨rfl, List.forall₂_same.mpr fun _ _ _ => id⟩

theorem font {f f' : Font} (h : f.Gains f') : Gains (.font f) (.font f') where
  erased := by rw [eraseDesigns, eraseDesigns, h.erased]
  designs := .cons h.design .nil

theorem fontModifier {f f' : Font} (h : f.Gains f') :
    Gains (.modifier (.font f)) (.modifier (.font f')) where
  erased := by
    rw [eraseDesigns, eraseDesigns, Modifier.eraseDesign, Modifier.eraseDesign, h.erased]
  designs := .cons h.design .nil

theorem list {items items' : List Value} (h : List.Forall₂ Gains items items') :
    Gains (.list items) (.list items') := by
  have herased : eraseDesignsEach items = eraseDesignsEach items' := by
    induction h with
    | nil => rfl
    | cons hitem _ ih => rw [eraseDesignsEach, eraseDesignsEach, hitem.erased, ih]
  have hdesigns : List.Forall₂ Font.KeepsDesign (fontsEach items) (fontsEach items') := by
    clear herased
    induction h with
    | nil => exact .nil
    | cons hitem _ ih =>
      rw [fontsEach, fontsEach]
      exact List.rel_append hitem.designs ih
  exact ⟨by rw [eraseDesigns, eraseDesigns, herased], hdesigns⟩

/-- What gains on a font is a font. -/
theorem exists_font {f : Font} {value : Value} (h : Gains (.font f) value) :
    ∃ f', value = .font f' ∧ f.Gains f' := by
  obtain ⟨herased, hdesigns⟩ := h
  cases value with
  | font f' =>
    have hfont : f.eraseDesign = f'.eraseDesign := by
      simpa only [eraseDesigns, font.injEq] using herased
    cases hdesigns with
    | cons hdesign _ => exact ⟨f', rfl, hfont, hdesign⟩
  | _ => simp only [eraseDesigns, reduceCtorEq] at herased

/-- A paint has nothing to gain. -/
theorem eq_paint {p : Paint} {value : Value} (h : Gains (.paint p) value) : value = .paint p := by
  have herased := h.erased
  cases value <;> cases herased
  rfl

end Value.Gains

/-! ## Results that grow -/

/-- If the first result is a value, the second is one that gains on it. -/
def Grows (first second : Except ResolveError Value) : Prop :=
  ∀ value, first = .ok value → ∃ value', second = .ok value' ∧ value.Gains value'

namespace Grows

theorem refl (result : Except ResolveError Value) : Grows result result :=
  fun value h => ⟨value, h, .refl value⟩

theorem of_eq {first second : Except ResolveError Value} (h : first = second) :
    Grows first second :=
  h ▸ refl first

theorem error (e : ResolveError) (second : Except ResolveError Value) : Grows (.error e) second :=
  nofun

theorem ok {value value' : Value} (h : value.Gains value') : Grows (.ok value) (.ok value') := by
  intro v hv
  cases hv
  exact ⟨value', rfl, h⟩

/-- Two builders that ask for an argument, the second of a result that grows. -/
theorem bind_value {α : Type} [FromValue α] {Q : α → α → Prop}
    (hQ : ∀ value value' a, value.Gains value' → FromValue.fromValue? value = some a →
      ∃ a', FromValue.fromValue? value' = some a' ∧ Q a a')
    {label : String} {children children' : List (Except ResolveError Value)}
    {environment environment' : Option Environment} {index : Nat}
    {child child' : Except ResolveError Value} (hchild : children[index]? = some child)
    (hchild' : children'[index]? = some child') (h : Grows child child')
    {f f' : α → Except ResolveError Value} (hf : ∀ a a', Q a a' → Grows (f a) (f' a')) :
    Grows (Args.value α ⟨label, children, environment⟩ index >>= f)
      (Args.value α ⟨label, children', environment'⟩ index >>= f') := by
  simp only [Args.value, Args.get, hchild, hchild']
  cases child with
  | error e => exact error e _
  | ok value =>
    obtain ⟨value', rfl, hgains⟩ := h value rfl
    cases ha : (FromValue.fromValue? value : Option α) with
    | none =>
      simp only [ha]
      exact error _ _
    | some a =>
      obtain ⟨a', ha', hQa⟩ := hQ value value' a hgains ha
      simp only [ha, ha']
      exact hf a a' hQa

/-- Two builders that ask for the same argument. -/
theorem bind_same {α : Type} [FromValue α] {label : String}
    {children children' : List (Except ResolveError Value)}
    {environment environment' : Option Environment} {index : Nat}
    (h : children[index]? = children'[index]?)
    {f f' : α → Except ResolveError Value} (hf : ∀ a, Grows (f a) (f' a)) :
    Grows (Args.value α ⟨label, children, environment⟩ index >>= f)
      (Args.value α ⟨label, children', environment'⟩ index >>= f') := by
  have hvalue : Args.value α ⟨label, children, environment⟩ index =
      Args.value α ⟨label, children', environment'⟩ index := by
    simp only [Args.value, Args.get, h]
  rw [hvalue]
  cases Args.value α ⟨label, children', environment'⟩ index with
  | error e => exact error e _
  | ok a => exact hf a

/-- The items of a list, one by one. -/
theorem allOf {items items' : List (Except ResolveError Value)}
    (h : List.Forall₂ Grows items items') {values : List Value} (hvalues : Args.allOf items = .ok values) :
    ∃ values', Args.allOf items' = .ok values' ∧ List.Forall₂ Value.Gains values values' := by
  induction h generalizing values with
  | nil =>
    cases hvalues
    exact ⟨[], rfl, .nil⟩
  | cons hitem _ ih =>
    rename_i item item' items items' _
    cases item with
    | error e => cases hvalues
    | ok value =>
      obtain ⟨rest, hrest, rfl⟩ := map_eq_ok_iff.mp hvalues
      obtain ⟨value', rfl, hvalue⟩ := hitem value rfl
      obtain ⟨rest', hrest', hall⟩ := ih hrest
      refine ⟨value' :: rest', ?_, .cons hvalue hall⟩
      rw [Args.allOf, hrest']
      rfl

end Grows

theorem gains_font_of_fromValue? (value value' : Value) (f : Font) (h : value.Gains value')
    (hf : FromValue.fromValue? value = some f) :
    ∃ f', FromValue.fromValue? value' = some f' ∧ f.Gains f' := by
  rw [eq_font_of_fromValue? hf] at h
  obtain ⟨f', rfl, hgains⟩ := h.exists_font
  exact ⟨f', rfl, hgains⟩

theorem eq_of_gains_paint (value value' : Value) (p : Paint) (h : value.Gains value')
    (hp : FromValue.fromValue? value = some p) :
    ∃ p', FromValue.fromValue? value' = some p' ∧ p = p' := by
  rw [eq_paint_of_fromValue? hp] at h
  rw [h.eq_paint]
  exact ⟨p, rfl, rfl⟩

/-! ## Newer systems -/

theorem Version.lt_of_atMost {v v' required : Version} (hle : v = v' ∨ v < v')
    (h : v' < required) : v < required := by
  rcases hle with rfl | hlt
  · exact h
  · change Version.before _ _ at hlt h ⊢
    unfold before at hlt h ⊢
    simp only [UInt32.lt_iff_toNat_lt, ← UInt32.toNat_inj] at hlt h ⊢
    omega

/-- The second context is the first on the same or a newer version of the system. -/
structure Context.Upgrade (c c' : Context) : Prop where
  attributes : c.attribute? = c'.attribute?
  platform : c.environment.platform = c'.environment.platform
  values : c.environment.values = c'.environment.values
  version : c.environment.runtimeVersion = c'.environment.runtimeVersion ∨
    c.environment.runtimeVersion < c'.environment.runtimeVersion

section Contexts

variable {c c' : Context}

theorem Context.Upgrade.isDark (h : c.Upgrade c') :
    c.environment.isDark = c'.environment.isDark := by
  simp only [Environment.isDark, Environment.value?, h.values]

/-- A gate that lets a shape pass lets it pass on newer systems. -/
theorem Context.Upgrade.check (h : c.Upgrade c') {gate : RuntimeGate}
    (hcheck : gate.check c.environment = .ok ()) : gate.check c'.environment = .ok () := by
  rw [RuntimeGate.check_eq_ok_iff] at hcheck ⊢
  intro required hrequired hold
  rw [← h.platform] at hrequired
  exact hcheck required hrequired (Version.lt_of_atMost h.version hold)

end Contexts

/-! ## Steady results -/

/-- The types whose values do not depend on the version of the system. -/
def steadyTypes : List String :=
  ["Length", "Alignment", "EdgeSet", "Color", "FontWeight", "FontDesign"]

/-- The rule names a steady type, if any. -/
abbrev Rule.Steady (rule : Rule) : Prop :=
  rule.TargetsIn (· ∈ steadyTypes)

instance (rule : Rule) : Decidable rule.Steady :=
  decidable_of_iff (∀ name ∈ rule.target?, name ∈ steadyTypes) Iff.rfl

/-- Two results of a rule or a type: the same if that is steady, and growing in any case. -/
structure Follows (steady : Prop) (first second : Except ResolveError Value) : Prop where
  same : steady → first = second
  grows : Grows first second

theorem Follows.of_eq {steady : Prop} {first second : Except ResolveError Value}
    (h : first = second) : Follows steady first second :=
  ⟨fun _ => h, .of_eq h⟩

theorem Follows.of_grows {steady : Prop} {first second : Except ResolveError Value}
    (hsteady : ¬steady) (h : Grows first second) : Follows steady first second :=
  ⟨fun hs => absurd hs hsteady, h⟩

/-- The results of a shape's children on two systems. -/
def FollowParams (params : List Param)
    (pairs : List (Except ResolveError Value × Except ResolveError Value)) : Prop :=
  List.Forall₂ (fun param pair => Follows param.rule.Steady pair.1 pair.2) params pairs

theorem FollowParams.eq_of_steady {params : List Param}
    {pairs : List (Except ResolveError Value × Except ResolveError Value)}
    (h : FollowParams params pairs) (hsteady : ∀ param ∈ params, param.rule.Steady) :
    pairs.map Prod.fst = pairs.map Prod.snd := by
  induction h with
  | nil => rfl
  | cons hpair _ ih =>
    obtain ⟨hparam, hparams⟩ := List.forall_mem_cons.mp hsteady
    rw [List.map_cons, List.map_cons, hpair.same hparam, ih hparams]

/-! ## Builders -/

/-- From results that follow each other, the second builder makes what grows on what the first
makes. -/
def Builder.Grows (params : List Param) (first second : Builder) : Prop :=
  ∀ label pairs environment environment', FollowParams params pairs →
    DeferredStyle.Grows (first.build ⟨label, pairs.map Prod.fst, environment⟩)
      (second.build ⟨label, pairs.map Prod.snd, environment'⟩)

/-- A builder that reads nothing of the environment makes the same of steady results. -/
theorem Builder.grows_of_steady {params : List Param} {builder : Builder}
    (hparams : ∀ param ∈ params, param.rule.Steady) (h : builder.IgnoresEnvironment) :
    builder.Grows params builder := by
  intro label pairs environment environment' hpairs
  rw [hpairs.eq_of_steady hparams]
  have hsame := h ⟨label, pairs.map Prod.snd, environment'⟩ environment
  exact .of_eq hsame

namespace Vocabulary

/-- A faded paint asks for a paint, which has nothing to gain. -/
theorem fadedPaint_grows :
    Builder.Grows [.positional (.type "Paint"), .positional (.leaf .float)] fadedPaint
      fadedPaint := by
  intro label pairs environment environment' h
  rcases h with _ | ⟨hbase, _ | ⟨hamount, _ | _⟩⟩
  rename_i base amount
  have hsame : amount.1 = amount.2 := hamount.same (by decide)
  refine Grows.bind_value (α := Paint) eq_of_gains_paint rfl rfl hbase.grows ?_
  rintro paint _ rfl
  refine Grows.bind_same (α := Float) (by simp [hsame]) fun x => ?_
  exact .refl _

/-- A font in another weight gains what the font gains. -/
theorem weightedFont_grows :
    Builder.Grows [.positional (.type "Font"), .positional (.type "FontWeight")] weightedFont
      weightedFont := by
  intro label pairs environment environment' h
  rcases h with _ | ⟨hbase, _ | ⟨hweight, _ | _⟩⟩
  rename_i base weight
  have hsame : weight.1 = weight.2 := hweight.same (by decide)
  refine Grows.bind_value (α := Font) gains_font_of_fromValue? rfl rfl hbase.grows ?_
  intro font font' hfont
  refine Grows.bind_same (α := FontWeight) (by simp [hsame]) fun w => ?_
  exact .ok (.font (hfont.withWeight w))

/-- The parameters of a system font. -/
def systemFontParams : List Param :=
  [.labeled "size" (.leaf .float), optionalParam "weight" (.type "FontWeight"),
    optionalParam "design" (.type "FontDesign")]

/-- Where designs exist, a system font gains at most its design. -/
theorem undesignedFont_grows : Builder.Grows systemFontParams undesignedFont systemFont := by
  intro label pairs environment environment' h
  rw [h.eq_of_steady (by decide)]
  refine Grows.bind_same (α := Float) rfl fun size => ?_
  exact .ok (.font ⟨rfl, nofun⟩)

theorem paintModifier_grows (make : Paint → Modifier) :
    Builder.Grows [.positional (.type "Paint")] (ofValue Paint make) (ofValue Paint make) := by
  intro label pairs environment environment' h
  rcases h with _ | ⟨hpaint, _ | _⟩
  refine Grows.bind_value (α := Paint) eq_of_gains_paint rfl rfl hpaint.grows ?_
  rintro paint _ rfl
  exact .refl _

theorem fontModifier_grows :
    Builder.Grows [.positional (.type "Font")] (ofValue Font .font) (ofValue Font .font) := by
  intro label pairs environment environment' h
  rcases h with _ | ⟨hfont, _ | _⟩
  refine Grows.bind_value (α := Font) gains_font_of_fromValue? rfl rfl hfont.grows ?_
  intro font font' hgains
  exact .ok (.fontModifier hgains)

/-! ## Shapes -/

section Shapes

variable {c c' : Context}

/-- A shape that has a builder on some system has one on newer systems: the same one, or its own
in place of the fallback. -/
theorem selectBuilder_upgrade (hc : c.Upgrade c') {label : String} {builder selected : Builder}
    {fallback : Option Builder} {gate : Option RuntimeGate}
    (h : selectBuilder label builder fallback gate c.environment = .ok selected) :
    ∃ selected', selectBuilder label builder fallback gate c'.environment = .ok selected' ∧
      (selected = builder ∧ selected' = builder ∨
        fallback = some selected ∧ (selected' = selected ∨ selected' = builder)) := by
  cases gate with
  | none =>
    cases h
    exact ⟨builder, rfl, .inl ⟨rfl, rfl⟩⟩
  | some gate =>
    rcases selectBuilder_gated h with ⟨hcheck, rfl⟩ | hfallback
    · exact ⟨selected, by simp only [selectBuilder, hc.check hcheck], .inl ⟨rfl, rfl⟩⟩
    · cases hcheck' : gate.check c'.environment with
      | ok _ =>
        exact ⟨builder, by simp only [selectBuilder, hcheck'], .inr ⟨hfallback, .inr rfl⟩⟩
      | error required =>
        exact ⟨selected, by simp only [selectBuilder, hcheck', hfallback],
          .inr ⟨hfallback, .inl rfl⟩⟩

/-- A shape without a gate, on steady children. -/
theorem resolve_deferShape_same (hc : c.Upgrade c') {shape : Shape} {children : List Resolvable}
    (hgate : shape.availability.runtimeGate = none)
    (hparams : ∀ param ∈ shape.params, param.rule.Steady)
    (hbuilder : shape.builder.ReadsDarkness)
    (hchildren : FollowParams shape.params
      (children.map fun r => (r.resolve c, r.resolve c'))) (label : String) :
    (deferShape label shape children).resolve c = (deferShape label shape children).resolve c' := by
  have hsame := hchildren.eq_of_steady hparams
  rw [List.map_map, List.map_map] at hsame
  have hresults : children.map (Resolvable.resolve c) = children.map (Resolvable.resolve c') :=
    hsame
  rw [deferShape, Resolvable.resolve_deferred, Resolvable.resolve_deferred, hgate, hresults]
  exact hbuilder label _ _ _ hc.isDark

/-- A shape whose builders grow on themselves, and its builder on its fallback. -/
theorem grows_deferShape (hc : c.Upgrade c') {shape : Shape} {children : List Resolvable}
    (hbuilder : shape.builder.Grows shape.params shape.builder)
    (hfallback : ∀ fallback, shape.fallback = some fallback →
      fallback.Grows shape.params fallback ∧ fallback.Grows shape.params shape.builder)
    (hchildren : FollowParams shape.params
      (children.map fun r => (r.resolve c, r.resolve c'))) (label : String) :
    Grows ((deferShape label shape children).resolve c)
      ((deferShape label shape children).resolve c') := by
  have hrun : ∀ first second : Builder, first.Grows shape.params second →
      Grows (first.build ⟨label, children.map (Resolvable.resolve c), some c.environment⟩)
        (second.build ⟨label, children.map (Resolvable.resolve c'), some c'.environment⟩) := by
    intro first second hgrows
    have hpairs := hgrows label _ (some c.environment) (some c'.environment) hchildren
    rw [List.map_map, List.map_map] at hpairs
    exact hpairs
  rw [deferShape, Resolvable.resolve_deferred, Resolvable.resolve_deferred]
  cases hselect : selectBuilder label shape.builder shape.fallback
      shape.availability.runtimeGate c.environment with
  | error e => exact .error e _
  | ok selected =>
    obtain ⟨selected', hselect', hcase⟩ := selectBuilder_upgrade hc hselect
    rw [hselect']
    rcases hcase with ⟨rfl, rfl⟩ | ⟨hselected, rfl | rfl⟩
    · exact hrun _ _ hbuilder
    · exact hrun _ _ (hfallback _ hselected).1
    · exact hrun _ _ (hfallback _ hselected).2

/-- A shape without a gate always uses its own builder. -/
theorem grows_plain (hc : c.Upgrade c') {kind : ShapeKind} {params : List Param}
    {keys : List String} {builder : Builder} (hbuilder : builder.Grows params builder)
    {children : List Resolvable}
    (hchildren : FollowParams params (children.map fun r => (r.resolve c, r.resolve c')))
    (label : String) :
    Grows ((deferShape label (.plain kind params keys builder) children).resolve c)
      ((deferShape label (.plain kind params keys builder) children).resolve c') :=
  grows_deferShape hc hbuilder (fun _ hfallback => by cases hfallback) hchildren label

/-- **The shapes of the vocabulary follow their children to newer systems.** -/
theorem HasShape.follows {typeName : String} {shape : Shape} (h : HasShape typeName shape)
    (hc : c.Upgrade c') {children : List Resolvable}
    (hchildren : FollowParams shape.params
      (children.map fun r => (r.resolve c, r.resolve c'))) (label : String) :
    Follows (typeName ∈ steadyTypes) ((deferShape label shape children).resolve c)
      ((deferShape label shape children).resolve c') := by
  cases h with
  | named | schemeColor =>
    refine .of_eq (resolve_deferShape_same hc rfl (List.forall_mem_nil _) ?_ hchildren label)
    first | exact schemeColor_readsDarkness _ _ | exact fun _ _ _ _ _ => rfl
  | hexColor | componentColor | fadedColor | solid | tinted | gradient | fixedFrame | flexibleFrame
  | uniformPadding | edgePadding | opacity | fontWeight | cornerRadius | shift =>
    exact .of_eq (resolve_deferShape_same hc rfl (by decide) (fun _ _ _ _ _ => rfl) hchildren label)
  | windowBackground =>
    refine .of_grows (by decide) (grows_deferShape hc ?_ (fun fallback hfallback => ?_) hchildren
      label)
    · exact Builder.grows_of_steady (List.forall_mem_nil _) fun _ _ => rfl
    · cases hfallback
  | systemFont =>
    refine .of_grows (by decide) (grows_deferShape hc ?_ (fun fallback hfallback => ?_) hchildren
      label)
    · exact Builder.grows_of_steady (by decide) fun _ _ => rfl
    · cases hfallback
      exact ⟨Builder.grows_of_steady (by decide) fun _ _ => rfl, undesignedFont_grows⟩
  | fadedPaint => exact .of_grows (by decide) (grows_plain hc fadedPaint_grows hchildren label)
  | weightedFont => exact .of_grows (by decide) (grows_plain hc weightedFont_grows hchildren label)
  | foregroundStyle | background =>
    exact .of_grows (by decide) (grows_plain hc (paintModifier_grows _) hchildren label)
  | font => exact .of_grows (by decide) (grows_plain hc fontModifier_grows hchildren label)

end Shapes

end Vocabulary

open Vocabulary

/-! ## Trees -/

/-- A shape that was folded is a constant, and follows itself. -/
theorem follows_finishShape {c c' : Context} (hc : c.Upgrade c') {typeName : String} {shape : Shape}
    (h : HasShape typeName shape) (folds : Bool) (label : String) {children : List Resolvable}
    (hchildren : FollowParams shape.params
      (children.map fun r => (r.resolve c, r.resolve c'))) :
    Follows (typeName ∈ steadyTypes) ((finishShape folds label shape children).resolve c)
      ((finishShape folds label shape children).resolve c') := by
  rcases finishShape_eq folds label shape children with ⟨-, value, -, heq⟩ | ⟨-, heq⟩
  · rw [heq]
    exact .of_eq rfl
  · rw [heq]
    exact h.follows hc hchildren label

/-- Whether the values of what a tree is decoded as depend on the version of the system. -/
def Expected.Steady : Expected → Prop
  | .rule r => r.Steady
  | .catalog c => c.typeName ∈ steadyTypes

theorem follows_finishList {c c' : Context} (folds : Bool) (item : Rule) {items : List Resolvable}
    (h : ∀ r ∈ items, Follows item.Steady (r.resolve c) (r.resolve c')) :
    Follows (Rule.list item).Steady ((finishList folds (.list item) items).resolve c)
      ((finishList folds (.list item) items).resolve c') where
  same hsteady := by
    have hitems : items.map (Resolvable.resolve c) = items.map (Resolvable.resolve c') :=
      List.map_congr_left fun r hr => (h r hr).same hsteady
    rw [resolve_finishList, resolve_finishList, hitems]
  grows := by
    have hitems : List.Forall₂ Grows (items.map (Resolvable.resolve c))
        (items.map (Resolvable.resolve c')) := by
      rw [List.forall₂_map_left_iff, List.forall₂_map_right_iff, List.forall₂_same]
      exact fun r hr => (h r hr).grows
    intro value hvalue
    rw [resolve_finishList] at hvalue ⊢
    obtain ⟨values, hvalues, rfl⟩ := map_eq_ok_iff.mp hvalue
    obtain ⟨values', hvalues', hgains⟩ := Grows.allOf hitems hvalues
    rw [hvalues']
    exact ⟨.list values', rfl, .list hgains⟩

/-- **Decoded trees follow to newer systems**: by induction on how they were decoded.  Children of
steady types are the same, which is what optional parameters need; all others grow. -/
theorem Decoded.follows {d : Decoder} {platform : Platform} {c c' : Context}
    (hstandard : d.registry = .standard platform) (hc : c.Upgrade c') {expected : Expected}
    {r : Resolvable} (h : Decoded d expected r) (hregistered : expected.Registered d.registry) :
    Follows expected.Steady (r.resolve c) (r.resolve c') := by
  induction h with
  | literal _ => exact .of_eq rfl
  | reference _ _ =>
    refine .of_eq (Resolvable.resolve_bound_congr ?_)
    rw [hc.attributes]
  | optional _ ih => exact ih trivial
  | list _ ih => exact follows_finishList _ _ fun r hr => ih r hr trivial
  | node hcatalog _ ih =>
    have hname := hcatalog
    rw [hstandard, Registry.catalog?_standard] at hname
    obtain ⟨source, hsource, rfl⟩ := Option.map_eq_some_iff.mp hname
    have hfollows := ih (.inl ⟨_, hcatalog⟩)
    refine ⟨fun hsteady => hfollows.same ?_, hfollows.grows⟩
    show source.typeName ∈ steadyTypes
    rw [typeName_of_lastNamed? hsource]
    exact hsteady _ rfl
  | shape hshape _ hlength _ ih =>
    rw [Expected.Registered, hstandard] at hregistered
    refine follows_finishShape hc (Registry.hasShape_of_registers hregistered _ hshape).1 _ _ ?_
    rw [FollowParams, List.forall₂_map_right_iff]
    exact List.forall₂_iff_zip.mpr ⟨hlength, fun hmem => ih _ _ hmem trivial⟩
  | case hcase hparams =>
    rw [Expected.Registered, hstandard] at hregistered
    have hshape := (Registry.hasShape_of_registers hregistered _ hcase).1
    refine follows_finishShape hc hshape _ _ ?_
    rw [hshape.params_of_isBareCase hparams]
    exact .nil

theorem Decoded.grows {folds : Bool} {platform : Platform} {c c' : Context} {catalog : Catalog}
    {r : Resolvable} (h : Decoded ⟨.standard platform, folds⟩ (.catalog catalog) r)
    (hcatalog : (Registry.standard platform).Registers catalog) (hc : c.Upgrade c') :
    Grows (r.resolve c) (r.resolve c') := by
  have hstandard : (Decoder.mk (.standard platform) folds).registry = .standard platform := rfl
  have hfollows := h.follows hstandard hc hcatalog
  exact hfollows.grows

/-- **Running on a newer system only adds.**  What a decoded node resolves to on some version of a
system, it resolves to on every newer version, up to the designs of system fonts; and every font
that has a design keeps it. -/
theorem resolve_upgrade (platform : Platform) (folds : Bool) (node : Node) (r : Resolvable)
    (hdecode :
      (∃ typeName, (⟨.standard platform, folds⟩ : Decoder).decodeType node typeName = .ok r) ∨
        (⟨.standard platform, folds⟩ : Decoder).decodeModifier node = .ok r)
    (attribute? : String → Option Literal) (running : Platform) (values : Table Literal)
    (v v' : Version) (hle : v = v' ∨ v < v') (value : Value)
    (hvalue : r.resolve ⟨attribute?, running, v, values⟩ = .ok value) :
    ∃ value', r.resolve ⟨attribute?, running, v', values⟩ = .ok value' ∧
      value.eraseDesigns = value'.eraseDesigns ∧
      List.Forall₂ (fun f f' : Font => ∀ design, f.design? = some design →
        f'.design? = some design) value.fonts value'.fonts := by
  have hc : Context.Upgrade ⟨attribute?, running, v, values⟩ ⟨attribute?, running, v', values⟩ :=
    ⟨rfl, rfl, rfl, hle⟩
  have hgrows : Grows (r.resolve ⟨attribute?, running, v, values⟩)
      (r.resolve ⟨attribute?, running, v', values⟩) := by
    rcases hdecode with ⟨typeName, hdecode⟩ | hdecode
    · obtain ⟨catalog, hcatalog, hdecode⟩ := Decoder.decodeType_ok hdecode
      exact (decoded_of_decode hdecode).grows (.inl ⟨typeName, hcatalog⟩) hc
    · obtain ⟨catalog, hcatalog, hdecode⟩ := Decoder.decodeModifier_ok hdecode
      exact (decoded_of_decode hdecode).grows (.inr ⟨node.tag, hcatalog⟩) hc
  obtain ⟨value', hvalue', hgains⟩ := hgrows value hvalue
  exact ⟨value', hvalue', hgains.erased, hgains.designs⟩

/-- A weighted system font with a design, whose size is an attribute.  macOS 12.0 leaves the design
out, macOS 13.0 has it, and so has macOS 14.2. -/
theorem resolve_upgrade_serif :
    let decoder := (Registry.standard .macos).decoder
    let serif : Node := Node.member (some "weight")
      [⟨none, .call (Node.member (some "system")
        [⟨some "size", .reference "size" .empty⟩, ⟨some "design", .literal (.string "serif")⟩])⟩,
        ⟨none, .literal (.string "bold")⟩]
    let element := Element.empty.set "size" (.float 12.0)
    let on (version : Version) : Context := ⟨element.attribute?, .macos, version, .empty⟩
    ∃ r f f', decoder.decodeType serif "Font" = .ok r ∧
      r.resolve (on (.ofMinor 12 0)) = .ok (.font f) ∧ f.design? = none ∧
      r.resolve (on (.ofMinor 13 0)) = .ok (.font f') ∧ f'.design? = some .serif ∧
      (Value.font f).eraseDesigns = (Value.font f').eraseDesigns ∧
      ∃ value, r.resolve (on (.ofMinor 14 2)) = .ok value ∧
        ∀ f'' ∈ value.fonts, f''.design? = some .serif := by
  intro decoder serif element on
  have hevaluated : ((decoder.decodeType serif "Font").toOption.any fun r =>
      ((r.resolveAs Font (on (.ofMinor 12 0))).toOption.any fun f => f.design? = none) &&
        (r.resolveAs Font (on (.ofMinor 13 0))).toOption.any fun f =>
          f.design? = some .serif) = true := by
    decide +kernel
  obtain ⟨r, hr, hfonts⟩ := (Option.any_eq_true _ _).mp hevaluated
  obtain ⟨hold, hnew⟩ := Bool.and_eq_true_iff.mp hfonts
  obtain ⟨f, hf, hnone⟩ := (Option.any_eq_true _ _).mp hold
  obtain ⟨f', hf', hserif⟩ := (Option.any_eq_true _ _).mp hnew
  replace hr := toOption_eq_some_iff.mp hr
  replace hf := Resolvable.resolve_of_resolveAs_font (toOption_eq_some_iff.mp hf)
  replace hf' := Resolvable.resolve_of_resolveAs_font (toOption_eq_some_iff.mp hf')
  replace hnone := of_decide_eq_true hnone
  replace hserif := of_decide_eq_true hserif
  have hdecode : (∃ typeName, decoder.decodeType serif typeName = .ok r) ∨
      decoder.decodeModifier serif = .ok r := .inl ⟨"Font", hr⟩
  obtain ⟨value, hvalue, herased, -⟩ := resolve_upgrade .macos true serif r hdecode
    element.attribute? .macos .empty (.ofMinor 12 0) (.ofMinor 13 0) (by decide) (.font f) hf
  obtain ⟨newer, hnewer, -, hdesigns⟩ := resolve_upgrade .macos true serif r hdecode
    element.attribute? .macos .empty (.ofMinor 13 0) (.ofMinor 14 2) (by decide) (.font f') hf'
  cases hf'.symm.trans hvalue
  refine ⟨r, f, f', hr, hf, hnone, hf', hserif, herased, newer, hnewer, fun f'' hmem => ?_⟩
  obtain ⟨first, hfirst, hkeeps⟩ := exists_left_of_forall₂ hdesigns hmem
  rw [Value.fonts, List.mem_singleton] at hfirst
  exact hkeeps .serif (hfirst ▸ hserif)

end DeferredStyle
