import DeferredStyle.Proofs.Candidates
import Mathlib.Data.List.Induction
import Mathlib.Data.List.Sort

/-!
# Runs of registrations

A registry is what its registrations left, so that a fact about all registries is a fact about all
runs.  Of several registrations of one kind and name the last counts, and of its catalog only the
shapes that exist on the registry's platform.

* `Registry.find?_run` — what a look-up finds after any run.
* `Registry.Holds` — what a run leaves, said without running it.
* `Registry.run_congr` — the last registrations, less what does not exist on the platform, are all
  that a run leaves.
* `run_determines_decoding` — the store after any run, and what the decoder sees of it.
-/

set_option autoImplicit false

namespace DeferredStyle

universe u

/-! ## Tables with the same look-ups -/

/-- Tables in which every key finds the same are the same. -/
theorem Table.ext_find? {α : Type u} {table table' : Table α}
    (h : ∀ key, table.find? key = table'.find? key) : table = table' := by
  have hmem : ∀ entry, entry ∈ table.entries ↔ entry ∈ table'.entries := fun (key, value) => by
    rw [← lookup?_eq_some_iff_mem (Table.nodup_keys_of_increasing table.increasing),
      ← lookup?_eq_some_iff_mem (Table.nodup_keys_of_increasing table'.increasing)]
    exact iff_of_eq (congrArg (· = some value) (h key))
  have hasymm : ∀ entry later : String × α, entry.1 < later.1 → ¬ later.1 < entry.1 :=
    fun entry later hlt hlt' => String.lt_irrefl _ (String.lt_trans hlt hlt')
  have : Std.Irrefl fun entry later : String × α => entry.1 < later.1 :=
    ⟨fun entry => String.lt_irrefl entry.1⟩
  have : Std.Antisymm fun entry later : String × α => entry.1 < later.1 :=
    ⟨fun entry later hlt hlt' => absurd hlt' (hasymm entry later hlt)⟩
  exact Table.ext (List.Pairwise.eq_of_mem_iff table.increasing table'.increasing hmem)

/-! ## Registrations -/

/-- What a catalog is registered as. -/
inductive Kind where
  | type
  | modifier
  deriving DecidableEq

/-- A catalog and what it is registered as. -/
structure Registration where
  kind : Kind
  catalog : Catalog

/-- Whether a registration is one of a kind and name. -/
def Registration.isOf (kind : Kind) (name : String) (step : Registration) : Bool :=
  step.kind = kind && step.catalog.typeName = name

namespace Registry

/-- The catalog of a kind under a name. -/
def find? (registry : Registry) : Kind → String → Option Catalog
  | .type, name => registry.catalog? name
  | .modifier, name => registry.modifier? name

/-- The registry after a registration. -/
def apply (registry : Registry) (step : Registration) : Registry :=
  match step.kind with
  | .type => registry.register step.catalog
  | .modifier => registry.registerModifier step.catalog

/-- The registry after a run of registrations, from the registry without catalogs. -/
def run (platform : Platform) (steps : List Registration) : Registry :=
  steps.foldl apply (empty platform)

/-- The registry that holds a catalog as it is. -/
def store (registry : Registry) (step : Registration) : Registry :=
  match step.kind with
  | .type =>
    { registry with types := registry.types.insert step.catalog.typeName step.catalog }
  | .modifier =>
    { registry with modifiers := registry.modifiers.insert step.catalog.typeName step.catalog }

/-- The registry that holds the last of some catalogs as they are. -/
def loaded (platform : Platform) (steps : List Registration) : Registry :=
  steps.foldl store (empty platform)

/-! ## One registration -/

variable (registry : Registry) (step : Registration) (kind : Kind) (name : String)

/-- A registration stores what the platform leaves of the catalog. -/
theorem apply_eq_store :
    registry.apply step =
      registry.store ⟨step.kind, step.catalog.forPlatform registry.platform⟩ := by
  unfold apply store
  cases step.kind <;> rfl

@[simp] theorem platform_store : (registry.store step).platform = registry.platform := by
  unfold store
  cases step.kind <;> rfl

/-- What is stored is found under its kind and name and nowhere else. -/
theorem find?_store :
    (registry.store step).find? kind name =
      if step.isOf kind name then some step.catalog else registry.find? kind name := by
  obtain ⟨stored, catalog⟩ := step
  cases stored <;> cases kind
  all_goals
    simp [store, find?, catalog?, modifier?, Table.find?_insert, Registration.isOf, eq_comm]

@[simp] theorem platform_apply : (registry.apply step).platform = registry.platform := by
  rw [apply_eq_store, platform_store]

theorem find?_apply :
    (registry.apply step).find? kind name =
      if step.isOf kind name then some (step.catalog.forPlatform registry.platform)
      else registry.find? kind name := by
  rw [apply_eq_store, find?_store]
  rfl

variable {registry} in
/-- Registries in which all look-ups find the same are the same. -/
theorem ext_find? {registry' : Registry} (hplatform : registry.platform = registry'.platform)
    (h : ∀ kind name, registry.find? kind name = registry'.find? kind name) :
    registry = registry' := by
  obtain ⟨platform, types, modifiers⟩ := registry
  obtain ⟨platform', types', modifiers'⟩ := registry'
  have htypes : types = types' := Table.ext_find? (h .type)
  have hmodifiers : modifiers = modifiers' := Table.ext_find? (h .modifier)
  cases hplatform
  rw [htypes, hmodifiers]

end Registry

/-! ## The last registration -/

namespace Registration

variable {kind : Kind} {name : String} {steps : List Registration}

theorem isOf_eq_true_iff {step : Registration} :
    step.isOf kind name = true ↔ step.kind = kind ∧ step.catalog.typeName = name := by
  simp [isOf]

/-- The last catalog of a kind and name. -/
def last? (kind : Kind) (name : String) (steps : List Registration) : Option Catalog :=
  (steps.reverse.find? (isOf kind name)).map catalog

/-- A catalog is registered under a kind and name, and none is after it. -/
def IsLast (kind : Kind) (name : String) (steps : List Registration) (catalog : Catalog) : Prop :=
  ∃ before after, steps = before ++ ⟨kind, catalog⟩ :: after ∧ catalog.typeName = name ∧
    ∀ later ∈ after, ¬ (later.kind = kind ∧ later.catalog.typeName = name)

theorem last?_concat (kind : Kind) (name : String) (steps : List Registration)
    (step : Registration) :
    last? kind name (steps ++ [step]) =
      if step.isOf kind name then some step.catalog else last? kind name steps := by
  by_cases h : step.isOf kind name <;> simp [last?, h]

theorem last?_cons (kind : Kind) (name : String) (step : Registration)
    (steps : List Registration) :
    last? kind name (step :: steps) =
      (last? kind name steps).or (if step.isOf kind name then some step.catalog else none) := by
  by_cases h : step.isOf kind name <;> simp [last?, h]

theorem last?_isSome_iff :
    (last? kind name steps).isSome = true ↔
      ∃ step ∈ steps, step.kind = kind ∧ step.catalog.typeName = name := by
  simp [last?, isOf_eq_true_iff]

theorem last?_eq_some_iff {catalog : Catalog} :
    last? kind name steps = some catalog ↔ IsLast kind name steps catalog := by
  constructor
  · intro h
    obtain ⟨step, hfind, rfl⟩ := Option.map_eq_some_iff.mp h
    obtain ⟨hstep, after, before, hreverse, hafter⟩ := List.find?_eq_some_iff_append.mp hfind
    obtain ⟨rfl, hname⟩ := isOf_eq_true_iff.mp hstep
    refine ⟨before.reverse, after.reverse, ?_, hname, fun later hlater hof => ?_⟩
    · rw [← List.reverse_reverse steps, hreverse]
      simp
    · have hnot := hafter later (List.mem_reverse.mp hlater)
      simp [isOf_eq_true_iff.mpr hof] at hnot
  · rintro ⟨before, after, rfl, hname, hafter⟩
    refine Option.map_eq_some_iff.mpr ⟨⟨kind, catalog⟩, ?_, rfl⟩
    refine List.find?_eq_some_iff_append.mpr
      ⟨isOf_eq_true_iff.mpr ⟨rfl, hname⟩, after.reverse, before.reverse, by simp, ?_⟩
    intro later hlater
    have hnot := hafter later (List.mem_reverse.mp hlater)
    rw [← isOf_eq_true_iff] at hnot
    simpa using hnot

/-- Registrations of other kinds and names do not count. -/
theorem last?_filter {p : Registration → Bool}
    (h : ∀ step, step.isOf kind name = true → p step = true) :
    last? kind name (steps.filter p) = last? kind name steps := by
  have hboth : ∀ step, (p step && step.isOf kind name) = step.isOf kind name := fun step => by
    cases hstep : step.isOf kind name with
    | false => simp
    | true => simp [h step hstep]
  rw [last?, ← List.filter_reverse, List.find?_filter]
  simp only [Bool.decide_and, Bool.decide_eq_true, hboth]
  rfl

end Registration

/-! ## What a platform leaves -/

/-- `held` is what a platform leaves of a catalog: the shapes that exist on it, in their order. -/
structure Catalog.Leaves (platform : Platform) (catalog held : Catalog) : Prop where
  typeName : held.typeName = catalog.typeName
  literal : held.literal = catalog.literal
  shapes : held.shapes = catalog.shapes.filter (·.availability.isAvailableOn platform)

theorem Catalog.leaves_iff {platform : Platform} {catalog held : Catalog} :
    catalog.Leaves platform held ↔ held = catalog.forPlatform platform := by
  constructor
  · rintro ⟨htypeName, hliteral, hshapes⟩
    obtain ⟨typeName, literal, shapes⟩ := held
    cases htypeName
    cases hliteral
    cases hshapes
    rfl
  · rintro rfl
    exact ⟨rfl, rfl, rfl⟩

theorem Catalog.available_of_mem_forPlatform {catalog : Catalog} {platform : Platform}
    {shape : Shape} (h : shape ∈ (catalog.forPlatform platform).shapes) :
    shape.availability.isAvailableOn platform = true :=
  (List.mem_filter.mp h).2

/-- Registrations that differ only in shapes that do not exist on a platform. -/
structure Registration.SameOn (platform : Platform) (step step' : Registration) : Prop where
  kind : step'.kind = step.kind
  typeName : step'.catalog.typeName = step.catalog.typeName
  literal : step'.catalog.literal = step.catalog.literal
  shapes : step'.catalog.shapes.filter (·.availability.isAvailableOn platform) =
    step.catalog.shapes.filter (·.availability.isAvailableOn platform)

/-- A registration from whose catalog the shapes that do not exist on a platform were taken out by
hand. -/
structure Registration.Filtered (platform : Platform) (step step' : Registration) : Prop where
  kind : step'.kind = step.kind
  catalog : step.catalog.Leaves platform step'.catalog

namespace Registration

variable {platform : Platform} {steps steps' : List Registration}

theorem SameOn.forPlatform_eq {step step' : Registration} (h : SameOn platform step step') :
    step'.catalog.forPlatform platform = step.catalog.forPlatform platform :=
  Catalog.leaves_iff.mp ⟨h.typeName, h.literal, h.shapes⟩

/-- What is made of the last catalogs agrees where the registrations agree one by one. -/
theorem last?_congr {f g : Catalog → Catalog}
    (h : List.Forall₂ (fun step step' : Registration => step'.kind = step.kind ∧
      step'.catalog.typeName = step.catalog.typeName ∧ g step'.catalog = f step.catalog)
      steps steps') (kind : Kind) (name : String) :
    (last? kind name steps').map g = (last? kind name steps).map f := by
  induction h with
  | nil => rfl
  | cons hstep _ ih =>
    obtain ⟨hkind, hname, hcatalog⟩ := hstep
    rw [last?_cons, last?_cons, Option.map_or, Option.map_or, ih, isOf, isOf, hkind, hname]
    split
    · rw [Option.map_some, Option.map_some, hcatalog]
    · rfl

theorem last?_sameOn (h : List.Forall₂ (SameOn platform) steps steps') (kind : Kind)
    (name : String) :
    (last? kind name steps').map (·.forPlatform platform) =
      (last? kind name steps).map (·.forPlatform platform) :=
  last?_congr (h.imp fun _ _ hstep => ⟨hstep.kind, hstep.typeName, hstep.forPlatform_eq⟩) kind name

theorem last?_filtered (h : List.Forall₂ (Filtered platform) steps steps') (kind : Kind)
    (name : String) :
    last? kind name steps' = (last? kind name steps).map (·.forPlatform platform) := by
  rw [← Option.map_id_apply (x := last? kind name steps')]
  exact last?_congr (h.imp fun _ _ hstep =>
    ⟨hstep.kind, hstep.catalog.typeName, Catalog.leaves_iff.mp hstep.catalog⟩) kind name

theorem Filtered.sameOn {step step' : Registration} (h : Filtered platform step step') :
    SameOn platform step step' where
  kind := h.kind
  typeName := h.catalog.typeName
  literal := h.catalog.literal
  shapes := by rw [h.catalog.shapes, List.filter_filter]; simp

end Registration

/-! ## Runs -/

namespace Registry

open Registration

variable (platform : Platform) (steps : List Registration) (kind : Kind) (name : String)

theorem find?_empty : (empty platform).find? kind name = none := by
  cases kind <;> rfl

theorem run_concat (step : Registration) :
    run platform (steps ++ [step]) = (run platform steps).apply step :=
  List.foldl_concat ..

@[simp] theorem platform_run : (run platform steps).platform = platform := by
  induction steps using List.reverseRecOn with
  | nil => rfl
  | append_singleton steps step ih => rw [run_concat, platform_apply, ih]

/-- **After any run a look-up finds the last registration, less what does not exist on the
platform.** -/
theorem find?_run :
    (run platform steps).find? kind name =
      (last? kind name steps).map (·.forPlatform platform) := by
  induction steps using List.reverseRecOn with
  | nil => exact find?_empty platform kind name
  | append_singleton steps step ih =>
    rw [run_concat, find?_apply, last?_concat, platform_run, ih]
    split <;> rfl

theorem loaded_concat (step : Registration) :
    loaded platform (steps ++ [step]) = (loaded platform steps).store step :=
  List.foldl_concat ..

@[simp] theorem platform_loaded : (loaded platform steps).platform = platform := by
  induction steps using List.reverseRecOn with
  | nil => rfl
  | append_singleton steps step ih => rw [loaded_concat, platform_store, ih]

theorem find?_loaded : (loaded platform steps).find? kind name = last? kind name steps := by
  induction steps using List.reverseRecOn with
  | nil => exact find?_empty platform kind name
  | append_singleton steps step ih => rw [loaded_concat, find?_store, last?_concat, ih]

variable {platform steps}

/-- The last registrations, less what does not exist on the platform, are all that a run leaves. -/
theorem run_congr {steps' : List Registration}
    (h : ∀ kind name, (last? kind name steps').map (·.forPlatform platform) =
      (last? kind name steps).map (·.forPlatform platform)) :
    run platform steps' = run platform steps :=
  ext_find? (by rw [platform_run, platform_run]) fun kind name => by
    rw [find?_run, find?_run, h]

theorem loaded_of_filtered {steps' : List Registration}
    (h : List.Forall₂ (Filtered platform) steps steps') :
    loaded platform steps' = run platform steps :=
  ext_find? (by rw [platform_loaded, platform_run]) fun kind name => by
    rw [find?_loaded, find?_run, last?_filtered h]

end Registry

/-- What any run of registrations leaves: per kind and name a catalog if one was registered, the
last one, with those of its shapes that exist on the platform. -/
structure Registry.Holds (registry : Registry) (platform : Platform) (steps : List Registration) :
    Prop where
  onPlatform : registry.platform = platform
  present : ∀ kind name, (registry.find? kind name).isSome = true ↔
    ∃ step ∈ steps, step.kind = kind ∧ step.catalog.typeName = name
  held : ∀ kind name catalog, registry.find? kind name = some catalog ↔
    ∃ last, Registration.IsLast kind name steps last ∧ last.Leaves platform catalog

namespace Registry

variable {platform : Platform} {steps : List Registration} {registry : Registry}

theorem holds_run : (run platform steps).Holds platform steps where
  onPlatform := platform_run platform steps
  present kind name := by
    rw [find?_run, Option.isSome_map, Registration.last?_isSome_iff]
  held kind name catalog := by
    rw [find?_run, Option.map_eq_some_iff]
    simp only [Registration.last?_eq_some_iff, Catalog.leaves_iff, @eq_comm _ catalog]

/-- Nothing else is known of a registry. -/
theorem Holds.eq_run (h : registry.Holds platform steps) : registry = run platform steps :=
  ext_find? (h.onPlatform.trans (platform_run platform steps).symm) fun kind name =>
    Option.ext fun catalog =>
      (h.held kind name catalog).trans (holds_run.held kind name catalog).symm

/-- Registrations of different kinds or names may trade places. -/
theorem apply_comm {first second : Registration}
    (h : ¬ (first.kind = second.kind ∧ first.catalog.typeName = second.catalog.typeName)) :
    (registry.apply first).apply second = (registry.apply second).apply first := by
  refine ext_find? (by simp) fun kind name => ?_
  simp only [find?_apply, platform_apply]
  by_cases hfirst : first.isOf kind name
  · obtain ⟨rfl, rfl⟩ := Registration.isOf_eq_true_iff.mp hfirst
    have hsecond : ¬ second.isOf first.kind first.catalog.typeName := fun hsecond => by
      obtain ⟨hkind, hname⟩ := Registration.isOf_eq_true_iff.mp hsecond
      exact h ⟨hkind.symm, hname.symm⟩
    simp [hfirst, hsecond]
  · simp [hfirst]

theorem find?_run_filter_kind (kind : Kind) (name : String) :
    (run platform (steps.filter (·.kind = kind))).find? kind name =
      (run platform steps).find? kind name := by
  rw [find?_run, find?_run, Registration.last?_filter fun step hstep => ?_]
  simpa using (Registration.isOf_eq_true_iff.mp hstep).1

theorem run_of_filter_eq {steps' : List Registration}
    (h : ∀ kind name, steps'.filter (·.isOf kind name) = steps.filter (·.isOf kind name)) :
    run platform steps' = run platform steps :=
  run_congr fun kind name => by
    have hlast : Registration.last? kind name steps' = Registration.last? kind name steps :=
      calc Registration.last? kind name steps'
          = Registration.last? kind name (steps'.filter (·.isOf kind name)) :=
            (Registration.last?_filter fun _ hstep => hstep).symm
        _ = Registration.last? kind name (steps.filter (·.isOf kind name)) := by rw [h]
        _ = Registration.last? kind name steps := Registration.last?_filter fun _ hstep => hstep
    rw [hlast]

end Registry

/-! ## What the decoder sees -/

theorem available_of_mem_candidates {platform : Platform} {steps : List Registration} {kind : Kind}
    {name : String} {catalog : Catalog}
    (h : (Registry.run platform steps).find? kind name = some catalog) {selector : Option String}
    {shape : Shape} (hmem : shape ∈ catalog.candidates selector) :
    shape.availability.isAvailableOn platform = true := by
  obtain ⟨last, -, hleaves⟩ := (Registry.holds_run.held kind name catalog).mp h
  rw [Catalog.leaves_iff.mp hleaves] at hmem
  exact Catalog.available_of_mem_forPlatform (Catalog.mem_of_mem_candidates hmem)

/-- **A registry is its last registrations, and only shapes that exist on its platform are ever
seen.**  After any run of registrations the registry holds, per kind and name, the last catalog with
the shapes that exist on the platform, and nothing else.  So registrations of one kind do not touch
the other, registrations of different kinds or names trade places, and decoding through the registry
is decoding through one that holds the catalogs from which the other shapes were taken out by
hand. -/
theorem run_determines_decoding (platform : Platform) (steps : List Registration) :
    (∀ registry : Registry, registry.Holds platform steps ↔ registry = .run platform steps) ∧
    (∀ kind name, (Registry.run platform (steps.filter (·.kind = kind))).find? kind name =
      (Registry.run platform steps).find? kind name) ∧
    (∀ (registry : Registry) (first second : Registration),
      ¬ (first.kind = second.kind ∧ first.catalog.typeName = second.catalog.typeName) →
      (registry.apply first).apply second = (registry.apply second).apply first) ∧
    (∀ steps' : List Registration,
      (∀ kind name, steps'.filter (·.isOf kind name) = steps.filter (·.isOf kind name)) →
      Registry.run platform steps' = .run platform steps) ∧
    -- whatever stands in the shapes that do not exist on the platform
    (∀ steps' : List Registration, List.Forall₂ (Registration.SameOn platform) steps steps' →
      Registry.run platform steps' = .run platform steps) ∧
    -- stored as they are, or registered once more
    (∀ steps' : List Registration, List.Forall₂ (Registration.Filtered platform) steps steps' →
      ∀ registry ∈ [Registry.loaded platform steps', Registry.run platform steps'],
      ∀ (folds : Bool) (node : Node),
        (∀ typeName, (⟨registry, folds⟩ : Decoder).decodeType node typeName =
          (⟨.run platform steps, folds⟩ : Decoder).decodeType node typeName) ∧
        (⟨registry, folds⟩ : Decoder).decodeModifier node =
          (⟨.run platform steps, folds⟩ : Decoder).decodeModifier node ∧
        ∀ catalog, (⟨registry, folds⟩ : Decoder).decode node catalog =
          (⟨.run platform steps, folds⟩ : Decoder).decode node catalog) ∧
    -- what is tried, picked by a selector, matched or reported
    (∀ kind name catalog, (Registry.run platform steps).find? kind name = some catalog →
      ∀ (folds : Bool) (node : Node),
        catalog.Selects node.selector (catalog.candidates node.selector) ∧
        (∀ shape ∈ catalog.candidates node.selector,
          shape.availability.isAvailableOn platform = true) ∧
        (⟨.run platform steps, folds⟩ : Decoder).Outcome catalog node
          (catalog.candidates node.selector)
          ((⟨.run platform steps, folds⟩ : Decoder).decode node catalog)) := by
  refine ⟨fun registry => ⟨fun h => h.eq_run, fun h => h ▸ Registry.holds_run⟩,
    Registry.find?_run_filter_kind, fun registry first second h => Registry.apply_comm h,
    fun steps' => Registry.run_of_filter_eq, ?_, ?_, ?_⟩
  · intro steps' h
    exact Registry.run_congr (Registration.last?_sameOn h)
  · intro steps' h registry hregistry folds node
    have hsame : registry = .run platform steps := by
      rcases List.mem_pair.mp hregistry with rfl | rfl
      · exact Registry.loaded_of_filtered h
      · exact Registry.run_congr (Registration.last?_sameOn (h.imp fun _ _ hstep => hstep.sameOn))
    subst hsame
    exact ⟨fun _ => rfl, rfl, fun _ => rfl⟩
  · intro kind name catalog h folds node
    exact ⟨catalog.selects_candidates node.selector,
      fun shape hmem => available_of_mem_candidates h hmem, Decoder.outcome_of_decode rfl⟩

/-- A later catalog replaces an earlier one, and of its two shapes the one that the node selects
does not exist on the platform: the other one is tried. -/
theorem run_determines_decoding_replaced :
    let params : List Param := [.positional (.leaf .int)]
    let spark := (Shape.enumCase "spark" params (.constant (.int 1))).available (.only [.ios])
    let glow := Shape.enumCase "glow" params (.constant (.int 2))
    let steps : List Registration :=
      [⟨.type, ⟨"Tint", none, []⟩⟩, ⟨.modifier, ⟨"Tint", none, [spark]⟩⟩,
        ⟨.type, ⟨"Tint", none, [spark, glow]⟩⟩]
    let swapped : List Registration :=
      [⟨.modifier, ⟨"Tint", none, [spark]⟩⟩, ⟨.type, ⟨"Tint", none, []⟩⟩,
        ⟨.type, ⟨"Tint", none, [spark, glow]⟩⟩]
    let node : Node := Node.member (some "spark") [⟨none, .literal (.int 7)⟩]
    let registry := Registry.run .macos steps
    let held : Catalog := ⟨"Tint", none, [glow]⟩
    registry.catalog? "Tint" = some held ∧ Registry.run .macos swapped = registry ∧
      registry.decoder.Outcome held node [glow] (.ok (.constant (.int 2))) := by
  intro params spark glow steps swapped node registry held
  have hrun := run_determines_decoding .macos steps
  have hlast : Registration.IsLast .type "Tint" steps ⟨"Tint", none, [spark, glow]⟩ :=
    ⟨steps.take 2, [], rfl, rfl, nofun⟩
  have hheld : registry.catalog? "Tint" = some held :=
    (((hrun.1 registry).mpr rfl).held .type "Tint" held).mpr ⟨_, hlast, rfl, rfl, rfl⟩
  refine ⟨hheld, ?_, ?_⟩
  · have hcomm := hrun.2.2.1 (.empty .macos) ⟨.modifier, ⟨"Tint", none, [spark]⟩⟩
      ⟨.type, ⟨"Tint", none, []⟩⟩ (by simp)
    exact congrArg (Registry.apply · ⟨.type, ⟨"Tint", none, [spark, glow]⟩⟩) hcomm
  · exact (hrun.2.2.2.2.2.2 .type "Tint" held hheld true node).2.2

end DeferredStyle
