import DeferredStyle.Proofs.Attributes
import DeferredStyle.Proofs.Environment
import DeferredStyle.Proofs.Locality
import DeferredStyle.Proofs.Origins

/-!
# What resolution reads of the environment

Every builder is given the whole environment.  In the standard vocabulary the platform and the
version of the running system are read by gates only, and of the values only the color scheme is
read, by two colors only.

* `Environment.LooksLike` — what two environments have to share.
* `Vocabulary.Tree.resolve_congr` — the trees of the vocabulary cannot tell such environments apart.
* `Resolvable.ReadsNoEnvironment` — trees without gates and without these colors;
  `Vocabulary.Tree.resolve_eq_of_readsNoEnvironment` — they cannot tell any environments apart.
* `resolve_reads_environment` — both, for decoded nodes.
-/

set_option autoImplicit false

namespace DeferredStyle

/-! ## Environments -/

/-- The environments have the same system and are both dark or both not. -/
structure Environment.LooksLike (environment environment' : Environment) : Prop where
  platform : environment.platform = environment'.platform
  runtimeVersion : environment.runtimeVersion = environment'.runtimeVersion
  isDark : environment.isDark = environment'.isDark

/-- An environment is dark if its color scheme is this text, and not for any other value. -/
theorem Environment.isDark_iff {environment : Environment} :
    environment.isDark = true ↔ environment.value? "colorScheme" = some (.string "dark") := by
  unfold isDark
  cases environment.value? "colorScheme" with
  | none => simp
  | some literal => cases literal <;> simp [Literal.string?]

theorem selectBuilder_congr {environment environment' : Environment}
    (h : environment.LooksLike environment') (label : String) (builder : Builder)
    (fallback : Option Builder) (gate : Option RuntimeGate) :
    selectBuilder label builder fallback gate environment =
      selectBuilder label builder fallback gate environment' := by
  cases gate with
  | none => rfl
  | some gate =>
    have hcheck : gate.check environment = gate.check environment' := by
      rw [RuntimeGate.check, RuntimeGate.check, h.platform, h.runtimeVersion]
    simp only [selectBuilder, hcheck, h.platform, h.runtimeVersion]

namespace Vocabulary

variable {typeName : String} {shape : Shape}

theorem HasShape.readsDarkness (h : HasShape typeName shape) :
    shape.builder.ReadsDarkness ∧
      ∀ fallback, shape.fallback = some fallback → fallback.ReadsDarkness := by
  cases h with
  | schemeColor => exact ⟨schemeColor_readsDarkness _ _, nofun⟩
  | systemFont =>
    refine ⟨fun _ _ _ _ _ => rfl, fun fallback hfallback => ?_⟩
    cases hfallback
    exact fun _ _ _ _ _ => rfl
  | _ => exact ⟨fun _ _ _ _ _ => rfl, nofun⟩

/-- Two colors read the environment. -/
theorem label_of_contextual (h : (typeName, shape) ∈ shapes)
    (hcontextual : shape.contextual = true) :
    shape.label typeName = ".primary" ∨ shape.label typeName = ".secondary" := by
  have hall : ∀ entry ∈ shapes, entry.2.contextual = true →
      entry.2.label entry.1 = ".primary" ∨ entry.2.label entry.1 = ".secondary" := by
    decide +kernel
  exact hall _ h hcontextual

theorem ignoresEnvironment_of_mem_shapes (h : (typeName, shape) ∈ shapes) :
    shape.IgnoresEnvironment := by
  obtain ⟨catalog, hcatalog, hmem⟩ := List.mem_flatMap.mp h
  obtain ⟨_, hshape, heq⟩ := List.mem_map.mp hmem
  obtain ⟨rfl, rfl⟩ := Prod.mk.inj heq
  rcases List.mem_append.mp hcatalog with hcatalog | hcatalog
  · exact types_ignoreEnvironment catalog hcatalog _ hshape
  · exact modifiers_ignoreEnvironment catalog hcatalog _ hshape

end Vocabulary

/-! ## Trees -/

/-- Nowhere in the tree is there a gate or a color that reads the environment. -/
def Resolvable.ReadsNoEnvironment (r : Resolvable) : Prop :=
  ∀ d, r.Within (.deferred d) → d.gate = none ∧ d.shape ≠ ".primary" ∧ d.shape ≠ ".secondary"

theorem Resolvable.readsNoEnvironment_bound (binding : AttributeBinding) :
    (Resolvable.bound binding).ReadsNoEnvironment := by
  intro d hwithin
  rcases hwithin.cases_head with heq | ⟨child, ⟨deferred, heq, -⟩, -⟩ <;> cases heq

theorem Resolvable.readsNoEnvironment_deferred {deferred : Deferred Resolvable}
    (hgate : deferred.gate = none) (hprimary : deferred.shape ≠ ".primary")
    (hsecondary : deferred.shape ≠ ".secondary")
    (hchildren : ∀ child ∈ deferred.children, child.ReadsNoEnvironment) :
    (Resolvable.deferred deferred).ReadsNoEnvironment := by
  intro d hwithin
  rcases hwithin.cases_head with heq | ⟨child, ⟨_, heq, hchild⟩, hbelow⟩
  · cases heq
    exact ⟨hgate, hprimary, hsecondary⟩
  · cases heq
    exact hchildren child hchild d hbelow

theorem Resolvable.ReadsNoEnvironment.of_child {deferred : Deferred Resolvable}
    (h : (Resolvable.deferred deferred).ReadsNoEnvironment) {child : Resolvable}
    (hchild : child ∈ deferred.children) : child.ReadsNoEnvironment :=
  fun d hwithin => h d (.head ⟨deferred, rfl, hchild⟩ hwithin)

namespace Vocabulary.Tree

variable {folds : Bool} {r : Resolvable} {c c' : Context}

/-- **Trees of the vocabulary cannot tell environments apart that look alike**: by induction over
the tree, with the same builder selected at each shape and the same results of its children. -/
theorem resolve_congr (h : Tree folds r) (hattributes : c.attribute? = c'.attribute?)
    (henvironment : c.environment.LooksLike c'.environment) : r.resolve c = r.resolve c' := by
  induction h with
  | constant value => rfl
  | bound _ => exact Resolvable.resolve_bound_congr (congrFun hattributes _)
  | list _ ih =>
    rw [Resolvable.resolve_deferred, Resolvable.resolve_deferred, List.map_congr_left ih]
    rfl
  | @shape typeName shape children hshape _ _ ih =>
    obtain ⟨hbuilder, hfallback⟩ := (hasShape_of_mem_shapes hshape).readsDarkness
    rw [deferShape, Resolvable.resolve_deferred, Resolvable.resolve_deferred,
      selectBuilder_congr henvironment, List.map_congr_left ih]
    rcases selectBuilder_cases (shape.label typeName) shape.builder shape.fallback
        shape.availability.runtimeGate c'.environment with
      ⟨b, hselect, hb⟩ | ⟨-, -, required, hselect⟩
    · rw [hselect]
      rcases hb with rfl | hb
      · exact hbuilder _ _ _ _ henvironment.isDark
      · exact hfallback b hb _ _ _ _ henvironment.isDark
    · rw [hselect]

/-- Trees without gates and without the two colors cannot tell any environments apart. -/
theorem resolve_eq_of_readsNoEnvironment (h : Tree folds r) (hreads : r.ReadsNoEnvironment)
    (hattributes : c.attribute? = c'.attribute?) : r.resolve c = r.resolve c' := by
  induction h with
  | constant value => rfl
  | bound _ => exact Resolvable.resolve_bound_congr (congrFun hattributes _)
  | list _ ih =>
    have hchildren := List.map_congr_left fun child hchild =>
      ih child hchild (hreads.of_child hchild)
    rw [Resolvable.resolve_deferred, Resolvable.resolve_deferred, hchildren]
    rfl
  | @shape typeName shape children hshape _ _ ih =>
    have hchildren := List.map_congr_left fun child hchild =>
      ih child hchild (hreads.of_child hchild)
    obtain ⟨hgate, hprimary, hsecondary⟩ := hreads _ .refl
    have hcontextual : shape.contextual = false := by
      by_contra hcontextual
      rcases label_of_contextual hshape (by simpa using hcontextual) with hlabel | hlabel
      · exact hprimary hlabel
      · exact hsecondary hlabel
    obtain ⟨hbuilder, -⟩ := ignoresEnvironment_of_mem_shapes hshape hcontextual
    simp only at hgate
    rw [deferShape, Resolvable.resolve_deferred, Resolvable.resolve_deferred, hgate, hchildren]
    exact (hbuilder ⟨shape.label typeName, _, none⟩ _).trans
      (hbuilder ⟨shape.label typeName, _, none⟩ _).symm

end Vocabulary.Tree

/-- **Resolution reads the environment for its platform, its version and its darkness.**  What a
standard registry decodes resolves alike for an element in any two environments that share these,
whatever else they hold; where neither gates nor the colors `primary` and `secondary` occur, it
resolves alike in any two environments at all. -/
theorem resolve_reads_environment (platform : Platform) (folds : Bool) (node : Node)
    (r : Resolvable)
    (hdecode :
      (∃ typeName, (⟨.standard platform, folds⟩ : Decoder).decodeType node typeName = .ok r) ∨
        (⟨.standard platform, folds⟩ : Decoder).decodeModifier node = .ok r)
    (element : Element) :
    (∀ environment : Environment, environment.isDark = true ↔
      environment.value? "colorScheme" = some (.string "dark")) ∧
    (∀ environment environment' : Environment, environment.platform = environment'.platform →
      environment.runtimeVersion = environment'.runtimeVersion →
      environment.isDark = environment'.isDark →
      r.resolve (.ofElement element environment) = r.resolve (.ofElement element environment')) ∧
    ((∀ d : Deferred Resolvable, r.Within (.deferred d) →
        d.gate = none ∧ d.shape ≠ ".primary" ∧ d.shape ≠ ".secondary") →
      ∀ environment environment' : Environment,
        r.resolve (.ofElement element environment) =
          r.resolve (.ofElement element environment')) := by
  have htree : Vocabulary.Tree folds r := Vocabulary.tree_of_decodeNode hdecode
  refine ⟨fun environment => Environment.isDark_iff, ?_, ?_⟩
  · intro environment environment' hplatform hversion hdark
    exact htree.resolve_congr rfl ⟨hplatform, hversion, hdark⟩
  · intro hreads environment environment'
    exact htree.resolve_eq_of_readsNoEnvironment hreads rfl

/-- A faded semantic color in two environments without a dark scheme, and a solid paint without
semantic colors in a dark environment and on another system. -/
theorem resolve_reads_environment_scheme :
    let decoder := (Registry.standard .ios).decoder
    let element := (Element.empty.set "level" (.float 0.5)).set "tint" (.string "red")
    let faded : Node := Node.member (some "opacity")
      [⟨none, .call (Node.member (some "primary") [])⟩, ⟨none, .reference "level" .empty⟩]
    let solid : Node := Node.member (some "solid") [⟨none, .reference "tint" .empty⟩]
    let plain := Environment.standard
    let light := (plain.set "colorScheme" (.string "light")).set "density" (.int 3)
    let dark := (Environment.ofRuntime .macos (.ofMinor 10 4)).set "colorScheme" (.string "dark")
    (∃ r, decoder.decodeType faded "Color" = .ok r ∧ r.isConstant = false ∧
      plain.isDark = light.isDark ∧
      r.resolve (.ofElement element plain) = r.resolve (.ofElement element light)) ∧
    ∃ r, decoder.decodeType solid "Paint" = .ok r ∧ r.ReadsNoEnvironment ∧
      plain.isDark ≠ dark.isDark ∧
      r.resolve (.ofElement element plain) = r.resolve (.ofElement element dark) := by
  intro decoder element faded solid plain light dark
  refine ⟨?_, ?_⟩
  · let r : Resolvable := .deferred ⟨"Color.opacity(_:)", Vocabulary.fadedColor, none, none,
      [.deferred ⟨".primary", Vocabulary.primary, none, none, []⟩,
        .bound ⟨"level", Leaf.float, none⟩]⟩
    have hdecode : decoder.decodeType faded "Color" = .ok r := rfl
    refine ⟨r, hdecode, rfl, rfl, ?_⟩
    exact (resolve_reads_environment .ios true faded r (.inl ⟨_, hdecode⟩) element).2.1 plain light
      rfl rfl rfl
  · let r : Resolvable := .deferred ⟨".solid(_:)", Vocabulary.solid, none, none,
      [.bound ⟨"tint", Vocabulary.colorLeaf, none⟩]⟩
    have hdecode : decoder.decodeType solid "Paint" = .ok r := rfl
    have hreads : r.ReadsNoEnvironment :=
      Resolvable.readsNoEnvironment_deferred rfl (by decide) (by decide) <|
        List.forall_mem_singleton.mpr (Resolvable.readsNoEnvironment_bound _)
    refine ⟨r, hdecode, hreads, by decide, ?_⟩
    exact (resolve_reads_environment .ios true solid r (.inl ⟨_, hdecode⟩) element).2.2 hreads plain
      dark

end DeferredStyle
