import DeferredStyle.Proofs.Recursion
import DeferredStyle.Stylesheet.Basic
import Mathlib.Data.List.Basic
import Mathlib.Data.List.Induction

/-!
# The attributes a value depends on

A decoded tree names the attributes it reads before it is resolved.  This file proves that the list
is complete: two elements that agree on it give the same result, whatever the builders, gates,
fallbacks and defaults in the tree are.

* `Resolvable.references` — the references in a tree, from left to right.
* `Resolvable.attributeNames_eq` — the list holds the names of the references, each at its first
  place.
* `Resolvable.resolve_congr` — the result depends on the attributes of the references only.
* `attributeNames_sound` — both together, for trees, classes and class lists.
-/

set_option autoImplicit false

namespace DeferredStyle

/-- Two contexts give the same value to each of several attributes. -/
def Context.AgreeOn (names : List String) (c c' : Context) : Prop :=
  ∀ name ∈ names, c.attribute? name = c'.attribute? name

namespace Resolvable

mutual

/-- The references in a tree, from left to right. -/
def references : Resolvable → List AttributeBinding
  | .constant _ => []
  | .bound binding => [binding]
  | .deferred ⟨_, _, _, _, children⟩ => referencesEach children

/-- The references in several trees. -/
def referencesEach : List Resolvable → List AttributeBinding
  | [] => []
  | child :: children => child.references ++ referencesEach children

end

theorem referencesEach_eq (rs : List Resolvable) :
    referencesEach rs = rs.flatMap references := by
  induction rs with
  | nil => rfl
  | cons r rs ih => rw [referencesEach, ih, List.flatMap_cons]

/-! ## The list of names -/

/-- Adding names one after the other keeps the first of each. -/
theorem foldl_addName_nil (names : List String) : names.foldl addName [] = names.eraseDups := by
  induction names using List.reverseRecOn with
  | nil => rfl
  | append_singleton names name ih =>
    rw [List.foldl_append, ih, List.eraseDups_append]
    by_cases hmem : name ∈ names
    · have hrest : [name].removeAll names = [] := by simp [List.removeAll, hmem]
      simp [addName, hmem, hrest]
    · have hrest : [name].removeAll names = [name] := by simp [List.removeAll, hmem]
      simp [addName, hmem, hrest, List.eraseDups_cons]

theorem nodup_addName {names : List String} (h : names.Nodup) (name : String) :
    (addName names name).Nodup := by
  unfold addName
  split
  · exact h
  · rename_i hnew
    refine List.nodup_append.mpr ⟨h, List.pairwise_singleton _ name, ?_⟩
    intro a ha b hb heq
    rw [List.mem_singleton.mp hb] at heq
    exact hnew (List.contains_iff_mem.mpr (heq ▸ ha))

theorem nodup_foldl_addName (names : List String) {seen : List String} (h : seen.Nodup) :
    (names.foldl addName seen).Nodup := by
  induction names generalizing seen with
  | nil => exact h
  | cons name names ih => exact ih (nodup_addName h name)

/-- The collection goes through the references in order. -/
theorem collectNames_eq (r : Resolvable) (names : List String) :
    collectNames names r = (r.references.map AttributeBinding.name).foldl addName names := by
  induction r generalizing names with
  | constant value => rfl
  | bound binding => rfl
  | deferred shape builder fallback gate children ih =>
    rw [collectNames, references, collectNamesEach_eq, referencesEach_eq]
    induction children generalizing names with
    | nil => rfl
    | cons child children ihc =>
      rw [List.foldl_cons, List.flatMap_cons, List.map_append, List.foldl_append,
        ih child List.mem_cons_self,
        ihc fun c hc => ih c (List.mem_cons_of_mem child hc)]

theorem collectNamesEach_eq_references (rs : List Resolvable) :
    collectNamesEach [] rs = ((referencesEach rs).map AttributeBinding.name).eraseDups := by
  -- a shape with these children collects exactly their names
  have h := collectNames_eq (.deferred ⟨"", .list, none, none, rs⟩) []
  rw [collectNames, references] at h
  rw [h, foldl_addName_nil]

/-- **The listed names are those of the references, each once and at its first place.** -/
theorem attributeNames_eq (r : Resolvable) :
    r.attributeNames = (r.references.map AttributeBinding.name).eraseDups := by
  rw [attributeNames, collectNames_eq, foldl_addName_nil]

theorem nodup_attributeNames (r : Resolvable) : r.attributeNames.Nodup := by
  rw [attributeNames, collectNames_eq]
  exact nodup_foldl_addName _ List.nodup_nil

theorem mem_attributeNames {r : Resolvable} {name : String} :
    name ∈ r.attributeNames ↔ ∃ binding ∈ r.references, binding.name = name := by
  rw [attributeNames_eq, List.mem_eraseDups, List.mem_map]

/-! ## Resolution -/

variable {c c' : Context}

theorem resolve_bound_congr {binding : AttributeBinding}
    (h : c.attribute? binding.name = c'.attribute? binding.name) :
    (bound binding).resolve c = (bound binding).resolve c' := by
  simp only [resolve, AttributeBinding.resolve, AttributeBinding.decode, h]

/-- The result depends on the environment and the attributes of the references. -/
theorem resolve_congr (r : Resolvable) (henv : c.environment = c'.environment)
    (h : ∀ binding ∈ r.references, c.attribute? binding.name = c'.attribute? binding.name) :
    r.resolve c = r.resolve c' := by
  induction r with
  | constant value => rfl
  | bound binding => exact resolve_bound_congr (h binding (List.mem_singleton_self binding))
  | deferred shape builder fallback gate children ih =>
    have hchildren : children.map (resolve c) = children.map (resolve c') := by
      refine List.map_congr_left fun child hchild => ih child hchild fun binding hbinding => ?_
      refine h binding ?_
      rw [references, referencesEach_eq]
      exact List.mem_flatMap.mpr ⟨child, hchild, hbinding⟩
    rw [resolve_deferred, resolve_deferred, henv, hchildren]

theorem resolve_eq_of_agreeOn (r : Resolvable) (henv : c.environment = c'.environment)
    (h : c.AgreeOn r.attributeNames c') : r.resolve c = r.resolve c' :=
  r.resolve_congr henv fun binding hbinding =>
    h binding.name (mem_attributeNames.mpr ⟨binding, hbinding, rfl⟩)

end Resolvable

/-! ## Classes -/

namespace Stylesheet

variable {c c' : Context}

/-- The attributes of a class are those of its modifiers. -/
theorem mem_attributeNames (sheet : Stylesheet) {className name : String} :
    name ∈ sheet.attributeNames className ↔
      ∃ r ∈ sheet.modifiersOf className, name ∈ r.attributeNames := by
  rw [attributeNames, Resolvable.collectNamesEach_eq_references, List.mem_eraseDups,
    Resolvable.referencesEach_eq, List.map_flatMap, List.mem_flatMap]
  simp only [List.mem_map, Resolvable.mem_attributeNames]

theorem resolveClass_congr (sheet : Stylesheet) (className : String)
    (henv : c.environment = c'.environment)
    (h : c.AgreeOn (sheet.attributeNames className) c') :
    sheet.resolveClass className c = sheet.resolveClass className c' := by
  refine List.map_congr_left fun r hr => ?_
  have hr' : r.resolve c = r.resolve c' := r.resolve_eq_of_agreeOn henv fun name hname =>
    h name (sheet.mem_attributeNames.mpr ⟨r, hr, hname⟩)
  rw [Resolvable.resolveAs, Resolvable.resolveAs, hr']

theorem modifiers_congr (sheet : Stylesheet) (classList : String)
    (henv : c.environment = c'.environment)
    (h : ∀ className ∈ Text.words classList, c.AgreeOn (sheet.attributeNames className) c') :
    sheet.modifiers classList c = sheet.modifiers classList c' := by
  refine List.flatMap_congr fun className hmem => ?_
  rw [sheet.resolveClass_congr className henv (h className hmem)]

end Stylesheet

/-- **The listed attributes are all a result depends on.**  A tree, a class and a class list give
the same results to any two elements that agree on the attributes listed for them; the list of a
tree consists of the names of its references, without repetition and in the order of first use. -/
theorem attributeNames_sound :
    (∀ (r : Resolvable) (c c' : Context), c.environment = c'.environment →
      c.AgreeOn r.attributeNames c' → r.resolve c = r.resolve c') ∧
    (∀ r : Resolvable,
      r.attributeNames = (r.references.map AttributeBinding.name).eraseDups ∧
      r.attributeNames.Nodup ∧
      ∀ name, name ∈ r.attributeNames ↔ ∃ binding ∈ r.references, binding.name = name) ∧
    (∀ (sheet : Stylesheet) (className : String) (c c' : Context),
      c.environment = c'.environment → c.AgreeOn (sheet.attributeNames className) c' →
      sheet.resolveClass className c = sheet.resolveClass className c') ∧
    (∀ (sheet : Stylesheet) (classList : String) (c c' : Context),
      c.environment = c'.environment →
      (∀ className ∈ Text.words classList, c.AgreeOn (sheet.attributeNames className) c') →
      sheet.modifiers classList c = sheet.modifiers classList c') := by
  refine ⟨?_, ?_, ?_, ?_⟩
  · intro r c c' henv h
    exact r.resolve_eq_of_agreeOn henv h
  · intro r
    exact ⟨r.attributeNames_eq, r.nodup_attributeNames, fun _ => Resolvable.mem_attributeNames⟩
  · intro sheet className c c' henv h
    exact sheet.resolveClass_congr className henv h
  · intro sheet classList c c' henv h
    exact sheet.modifiers_congr classList henv h

/-- A tree that reads one attribute twice and another once, under elements that differ elsewhere. -/
theorem attributeNames_sound_pair :
    let r : Resolvable := .deferred ⟨"pair", .list, none, none,
      [.bound ⟨"size", .int, none⟩, .bound ⟨"tint", .string, some .nil⟩,
        .bound ⟨"size", .float, none⟩]⟩
    let c : Context := .ofElement (Element.empty.set "size" (.int 4)) .standard
    let c' : Context :=
      .ofElement ((Element.empty.set "size" (.int 4)).set "hidden" (.bool true)) .standard
    let sheet : Stylesheet := ⟨Table.empty.insert "card" [r]⟩
    c.environment = c'.environment ∧ c.AgreeOn r.attributeNames c' ∧
      c.attribute? "hidden" ≠ c'.attribute? "hidden" ∧ r.resolve c = r.resolve c' ∧
      (∀ className ∈ Text.words "card card", c.AgreeOn (sheet.attributeNames className) c') ∧
      sheet.modifiers "card card" c = sheet.modifiers "card card" c' := by
  intro r c c' sheet
  have hnames : ∀ names : List String, "hidden" ∉ names → c.AgreeOn names c' := by
    intro names hnot name hname
    have hne : name ≠ "hidden" := fun e => hnot (e ▸ hname)
    simp [c, c', Context.ofElement, Element.attribute?, Element.set, Table.find?_insert, hne]
  have hr : c.AgreeOn r.attributeNames c' := hnames _ (by decide)
  have hsheet : ∀ className ∈ Text.words "card card",
      c.AgreeOn (sheet.attributeNames className) c' := by
    have hwords : Text.words "card card" = ["card", "card"] := by decide +kernel
    intro className hmem
    have hname : className = "card" := by simpa [hwords] using hmem
    subst hname
    exact hnames _ (by decide +kernel)
  refine ⟨rfl, hr, ?_, attributeNames_sound.1 r c c' rfl hr, hsheet,
    attributeNames_sound.2.2.2 sheet "card card" c c' rfl hsheet⟩
  simp [c, c', Context.ofElement, Element.attribute?, Element.set, Element.empty,
    Table.find?_insert]

end DeferredStyle
