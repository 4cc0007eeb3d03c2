import DeferredStyle.Proofs.Binding
import DeferredStyle.Proofs.Recursion
import Mathlib.Data.List.Forall2

/-!
# Which shape a node is decoded as

The decoder's search is described without following its passes: which shapes of a catalog a selector
leaves, which of them wins, and what a failure lists.

* `Catalog.Selects` — the shapes that a selector leaves.
* `Decoder.Outcome` — what a node comes to on these shapes: the first shape with parameters whose
  own attempt succeeds; failing all of them, the first case with the node's trailing name; failing
  that, one entry per attempt.
* `decode_iff_outcome` — the decoder computes exactly this, and what one shape comes to does not
  depend on the other shapes.
-/

set_option autoImplicit false

namespace DeferredStyle

/-! ## The shapes a selector leaves -/

/-- The shapes of a catalog that a selector leaves, in order: those it is a key of, if it is not the
type's own name and there are any; all of them otherwise. -/
structure Catalog.Selects (catalog : Catalog) (selector : Option String) (shapes : List Shape) :
    Prop where
  keyed : ∀ key, selector = some key → key ≠ catalog.typeName →
    (∃ shape ∈ catalog.shapes, shape.isKeyedBy key) →
    shapes = catalog.shapes.filter (·.isKeyedBy key)
  whole : (∀ key, selector = some key → key ≠ catalog.typeName →
      ∀ shape ∈ catalog.shapes, ¬ shape.isKeyedBy key) →
    shapes = catalog.shapes

theorem Catalog.candidates_of_keyed {catalog : Catalog} {key : String}
    (hkey : key ≠ catalog.typeName) (hex : ∃ shape ∈ catalog.shapes, shape.isKeyedBy key) :
    catalog.candidates (some key) = catalog.shapes.filter (·.isKeyedBy key) := by
  obtain ⟨shape, hmem, hshape⟩ := hex
  have hne : catalog.shapes.filter (·.isKeyedBy key) ≠ [] :=
    List.ne_nil_of_mem (List.mem_filter.mpr ⟨hmem, hshape⟩)
  -- a list that is not empty picks the second branch
  simp only [candidates, if_neg hkey]

theorem Catalog.candidates_of_whole {catalog : Catalog} {selector : Option String}
    (h : ∀ key, selector = some key → key ≠ catalog.typeName →
      ∀ shape ∈ catalog.shapes, ¬ shape.isKeyedBy key) :
    catalog.candidates selector = catalog.shapes := by
  cases selector with
  | none => rfl
  | some key =>
    by_cases hkey : key = catalog.typeName
    · simp [candidates, hkey]
    · have hnil : catalog.shapes.filter (·.isKeyedBy key) = [] :=
        List.filter_eq_nil_iff.mpr (h key rfl hkey)
      simp [candidates, hkey, hnil]

theorem Catalog.mem_of_mem_candidates {catalog : Catalog} {selector : Option String} {shape : Shape}
    (h : shape ∈ catalog.candidates selector) : shape ∈ catalog.shapes := by
  by_cases hkeyed : ∃ key, selector = some key ∧ key ≠ catalog.typeName ∧
      ∃ s ∈ catalog.shapes, s.isKeyedBy key
  · obtain ⟨key, rfl, hkey, hex⟩ := hkeyed
    rw [candidates_of_keyed hkey hex] at h
    exact (List.mem_filter.mp h).1
  · rwa [candidates_of_whole fun key hselector hkey s hs hs' =>
      hkeyed ⟨key, hselector, hkey, s, hs, hs'⟩] at h

theorem Catalog.selects_candidates (catalog : Catalog) (selector : Option String) :
    catalog.Selects selector (catalog.candidates selector) where
  keyed key hselector hkey hex := by
    subst hselector
    exact candidates_of_keyed hkey hex
  whole h := candidates_of_whole h

/-! ## Attempts at shapes with parameters -/

/-- A shape was tried and failed. -/
def Fails (typeName : String) (attempt : Shape → Except DecodeError Resolvable) (shape : Shape)
    (entry : Attempt DecodeError) : Prop :=
  entry.shape = shape.label typeName ∧ attempt shape = .error entry.error

section Search

variable {typeName : String} {attempt : Shape → Except DecodeError Resolvable}

theorem firstMatch_of_ok {before after : List Shape} {shape : Shape} {r : Resolvable}
    (hbefore : ∀ earlier ∈ before, ∃ e, attempt earlier = .error e)
    (hshape : attempt shape = .ok r) :
    firstMatch typeName attempt (before ++ shape :: after) = .ok r := by
  induction before with
  | nil => simp [firstMatch, hshape]
  | cons earlier before ih =>
    obtain ⟨e, he⟩ := hbefore earlier List.mem_cons_self
    have hrest := ih fun s hs => hbefore s (List.mem_cons_of_mem earlier hs)
    simp [firstMatch, he, hrest]

theorem firstMatch_of_fails {shapes : List Shape} {entries : List (Attempt DecodeError)}
    (h : List.Forall₂ (Fails typeName attempt) shapes entries) :
    firstMatch typeName attempt shapes = .error entries := by
  induction h with
  | nil => rfl
  | cons hhead _ ih =>
    obtain ⟨hlabel, herror⟩ := hhead
    simp [firstMatch, herror, ih, ← hlabel]

theorem exists_error_of_fails {shapes : List Shape} {entries : List (Attempt DecodeError)}
    (h : List.Forall₂ (Fails typeName attempt) shapes entries) :
    ∀ shape ∈ shapes, ∃ e, attempt shape = .error e := by
  induction h with
  | nil => simp
  | cons hhead _ ih => exact List.forall_mem_cons.mpr ⟨⟨_, hhead.2⟩, ih⟩

/-- Either some shape is the first to succeed, or all fail. -/
theorem exists_first_or_fails (typeName : String) (attempt : Shape → Except DecodeError Resolvable)
    (shapes : List Shape) :
    (∃ before shape after r, shapes = before ++ shape :: after ∧
      (∀ earlier ∈ before, ∃ e, attempt earlier = .error e) ∧ attempt shape = .ok r) ∨
    ∃ entries, List.Forall₂ (Fails typeName attempt) shapes entries := by
  induction shapes with
  | nil => exact .inr ⟨[], .nil⟩
  | cons shape shapes ih =>
    cases hshape : attempt shape with
    | ok r => exact .inl ⟨[], shape, shapes, r, rfl, by simp, hshape⟩
    | error e =>
      rcases ih with ⟨before, first, after, r, rfl, hbefore, hfirst⟩ | ⟨entries, hentries⟩
      · refine .inl ⟨shape :: before, first, after, r, rfl, ?_, hfirst⟩
        exact List.forall_mem_cons.mpr ⟨⟨e, hshape⟩, hbefore⟩
      · exact .inr ⟨⟨shape.label typeName, e⟩ :: entries, .cons ⟨rfl, hshape⟩ hentries⟩

theorem firstMatch_of_all_fail (typeName : String) {shapes : List Shape}
    (hfails : ∀ shape ∈ shapes, ∃ e, attempt shape = .error e) :
    ∃ entries, firstMatch typeName attempt shapes = .error entries := by
  rcases exists_first_or_fails typeName attempt shapes with
    ⟨before, shape, after, r, rfl, -, hok⟩ | ⟨entries, hentries⟩
  · obtain ⟨e, he⟩ := hfails shape (by simp)
    rw [hok] at he
    cases he
  · exact ⟨entries, firstMatch_of_fails hentries⟩

end Search

/-! ## Cases without parameters -/

/-- The name by which a node writes a case: its selector if it has no arguments, or the text that is
its only argument and has no label. -/
def Node.NamesCase (node : Node) (name : String) : Prop :=
  node.arguments = [] ∧ node.selector = some name ∨
    node.arguments = [⟨none, .literal (.string name)⟩]

theorem trailingCaseName?_eq_some_iff {node : Node} {name : String} :
    trailingCaseName? node.selector node.arguments = some name ↔ node.NamesCase name := by
  unfold trailingCaseName? Node.NamesCase
  split <;> simp_all

/-- The entries that the cases without parameters add to a failure. -/
inductive CaseEntries (node : Node) (shapes : List Shape) : List (Attempt DecodeError) → Prop
  | none (hcases : ∀ shape ∈ shapes, shape.isBareCase = false) : CaseEntries node shapes []
  | unnamed (hcases : ∃ shape ∈ shapes, shape.isBareCase = true)
      (hname : ∀ name, ¬ node.NamesCase name) :
      CaseEntries node shapes [⟨"_", .missingCaseName⟩]
  | unknown {name : String} (hcases : ∃ shape ∈ shapes, shape.isBareCase = true)
      (hname : node.NamesCase name) (hshapes : ∀ shape ∈ shapes, shape.caseName? ≠ some name) :
      CaseEntries node shapes [⟨name, .unknownCase name (shapes.filterMap Shape.caseName?)⟩]

theorem isBareCase_of_caseName? {shape : Shape} {name : String}
    (h : shape.caseName? = some name) : shape.isBareCase = true := by
  rw [Shape.isBareCase, h]
  rfl

theorem filterMap_caseName?_filter (shapes : List Shape) :
    (shapes.filter (·.isBareCase)).filterMap Shape.caseName? =
      shapes.filterMap Shape.caseName? := by
  rw [List.filterMap_filter]
  refine List.filterMap_congr fun shape _ => ?_
  cases h : shape.caseName? <;> simp [Shape.isBareCase, h]

variable {folds : Bool} {typeName : String} {node : Node} {shapes : List Shape}

theorem matchCase_none {cases : List Shape} (hne : cases ≠ []) :
    matchCase folds typeName cases none = .error [⟨"_", .missingCaseName⟩] := by
  cases cases with
  | nil => exact absurd rfl hne
  | cons case cases => rfl

theorem matchCase_some {cases : List Shape} (hne : cases ≠ []) (name : String) :
    matchCase folds typeName cases (some name) =
      match cases.find? fun shape => shape.caseName? == some name with
      | some shape => .ok (finishShape folds (shape.label typeName) shape [])
      | none => .error [⟨name, .unknownCase name (cases.filterMap Shape.caseName?)⟩] := by
  cases cases with
  | nil => exact absurd rfl hne
  | cons case cases => rfl

theorem filter_isBareCase_ne_nil (h : ∃ shape ∈ shapes, shape.isBareCase = true) :
    shapes.filter (·.isBareCase) ≠ [] := by
  obtain ⟨shape, hmem, hshape⟩ := h
  exact List.ne_nil_of_mem (List.mem_filter.mpr ⟨hmem, hshape⟩)

theorem matchCase_of_first {before after : List Shape} {case : Shape} {name : String}
    (hname : node.NamesCase name) (hbefore : ∀ earlier ∈ before, earlier.caseName? ≠ some name)
    (hcase : case.caseName? = some name) :
    matchCase folds typeName ((before ++ case :: after).filter (·.isBareCase))
        (trailingCaseName? node.selector node.arguments) =
      .ok (finishShape folds (case.label typeName) case []) := by
  have hbare : case.isBareCase = true := isBareCase_of_caseName? hcase
  have hfind : ((before ++ case :: after).filter (·.isBareCase)).find?
      (fun shape => shape.caseName? == some name) = some case := by
    rw [List.filter_append, List.filter_cons_of_pos hbare]
    refine List.find?_eq_some_iff_append.mpr ⟨by simp [hcase], _, _, rfl, fun s hs => ?_⟩
    have hne := hbefore s (List.mem_filter.mp hs).1
    simpa using hne
  rw [trailingCaseName?_eq_some_iff.mpr hname,
    matchCase_some (filter_isBareCase_ne_nil ⟨case, by simp, hbare⟩), hfind]

theorem matchCase_of_entries {entries : List (Attempt DecodeError)}
    (h : CaseEntries node shapes entries) :
    matchCase folds typeName (shapes.filter (·.isBareCase))
        (trailingCaseName? node.selector node.arguments) = .error entries := by
  cases h with
  | none hcases =>
    have hnil : shapes.filter (·.isBareCase) = [] :=
      List.filter_eq_nil_iff.mpr fun shape hs => by simp [hcases shape hs]
    rw [hnil]
    rfl
  | unnamed hcases hname =>
    have hnone : trailingCaseName? node.selector node.arguments = none :=
      Option.eq_none_iff_forall_ne_some.mpr fun name h =>
        hname name (trailingCaseName?_eq_some_iff.mp h)
    rw [hnone, matchCase_none (filter_isBareCase_ne_nil hcases)]
  | unknown hcases hname hshapes =>
    rename_i name
    have hfind : (shapes.filter (·.isBareCase)).find?
        (fun shape => shape.caseName? == some name) = none :=
      List.find?_eq_none.mpr fun shape hs => by simpa using hshapes shape (List.mem_filter.mp hs).1
    rw [trailingCaseName?_eq_some_iff.mpr hname,
      matchCase_some (filter_isBareCase_ne_nil hcases), hfind, filterMap_caseName?_filter]

/-- Either the node names a case, and some case is the first with this name, or there are
entries. -/
theorem exists_case_or_entries (node : Node) (shapes : List Shape) :
    (∃ before case after name, shapes = before ++ case :: after ∧ node.NamesCase name ∧
      (∀ earlier ∈ before, earlier.caseName? ≠ some name) ∧ case.caseName? = some name) ∨
    ∃ entries, CaseEntries node shapes entries := by
  by_cases hcases : ∃ shape ∈ shapes, shape.isBareCase = true
  · by_cases hname : ∃ name, node.NamesCase name
    · obtain ⟨name, hname⟩ := hname
      cases hfind : shapes.find? fun shape => shape.caseName? == some name with
      | some case =>
        obtain ⟨hcase, before, after, rfl, hbefore⟩ := List.find?_eq_some_iff_append.mp hfind
        refine .inl ⟨before, case, after, name, rfl, hname, fun s hs => ?_, by simpa using hcase⟩
        simpa using hbefore s hs
      | none =>
        refine .inr ⟨_, .unknown hcases hname fun shape hs => ?_⟩
        simpa using List.find?_eq_none.mp hfind shape hs
    · exact .inr ⟨_, .unnamed hcases fun name h => hname ⟨name, h⟩⟩
  · exact .inr ⟨[], .none fun shape hs => by simpa using fun h => hcases ⟨shape, hs, h⟩⟩

/-! ## The outcome -/

/-- What one shape comes to on the arguments of a node. -/
def Decoder.attempt (d : Decoder) (typeName : String) (node : Node) (shape : Shape) :
    Except DecodeError Resolvable :=
  d.decodeShape (shape.label typeName) shape (d.readings node.arguments)

theorem Decoder.attempt_eq (d : Decoder) (typeName : String) (node : Node) (shape : Shape) :
    d.attempt typeName node shape =
      match bindArguments shape.params node.arguments with
      | .error e => .error e
      | .ok bindings =>
        (decodeParams d.registry shape.params (bindings.map (Binding.map d.decodeTerm))).map
          (finishShape d.folds (shape.label typeName) shape) := by
  rw [attempt, decodeShape, decodeChildren, d.readings_eq, bindArguments_map]
  cases bindArguments shape.params node.arguments <;> rfl

/-- What a node comes to on the shapes that its selector leaves. -/
inductive Decoder.Outcome (d : Decoder) (catalog : Catalog) (node : Node) (shapes : List Shape) :
    Except DecodeFailures Resolvable → Prop
  /-- The first shape with parameters whose own attempt succeeds, wherever the cases stand. -/
  | shape {before after : List Shape} {shape : Shape} {r : Resolvable}
      (hshapes : shapes = before ++ shape :: after)
      (hbefore : ∀ earlier ∈ before, earlier.isBareCase = false →
        ∃ e, d.attempt catalog.typeName node earlier = .error e)
      (hparams : shape.isBareCase = false)
      (hok : d.attempt catalog.typeName node shape = .ok r) :
      Outcome d catalog node shapes (.ok r)
  /-- Where no such attempt succeeds, the first case with the name that the node writes. -/
  | case {before after : List Shape} {case : Shape} {name : String}
      (hfails : ∀ shape ∈ shapes, shape.isBareCase = false →
        ∃ e, d.attempt catalog.typeName node shape = .error e)
      (hname : node.NamesCase name) (hshapes : shapes = before ++ case :: after)
      (hbefore : ∀ earlier ∈ before, earlier.caseName? ≠ some name)
      (hcase : case.caseName? = some name) :
      Outcome d catalog node shapes
        (.ok (finishShape d.folds (case.label catalog.typeName) case []))
  /-- Otherwise one entry for each shape with parameters, in order, and one for the cases. -/
  | failure {entries caseEntries : List (Attempt DecodeError)}
      (hfails : List.Forall₂ (Fails catalog.typeName (d.attempt catalog.typeName node))
        (shapes.filter (!·.isBareCase)) entries)
      (hcases : CaseEntries node shapes caseEntries) :
      Outcome d catalog node shapes
        (.error ⟨catalog.typeName, entries ++ caseEntries, node.annotations⟩)

theorem Decoder.decode_eq (d : Decoder) (node : Node) (catalog : Catalog) :
    d.decode node catalog =
      match firstMatch catalog.typeName (d.attempt catalog.typeName node)
          ((catalog.candidates node.selector).filter (!·.isBareCase)) with
      | .ok r => .ok r
      | .error entries =>
        match matchCase d.folds catalog.typeName
            ((catalog.candidates node.selector).filter (·.isBareCase))
            (trailingCaseName? node.selector node.arguments) with
        | .ok r => .ok r
        | .error caseEntries =>
          .error ⟨catalog.typeName, entries ++ caseEntries, node.annotations⟩ := by
  obtain ⟨tag, annotations, selector, arguments⟩ := node
  rfl

variable {d : Decoder} {catalog : Catalog}

/-- The decoder returns what the node comes to. -/
theorem Decoder.Outcome.decode_eq {result : Except DecodeFailures Resolvable}
    (h : d.Outcome catalog node (catalog.candidates node.selector) result) :
    d.decode node catalog = result := by
  rw [d.decode_eq]
  cases h with
  | shape hshapes hbefore hparams hok =>
    rw [hshapes, List.filter_append, List.filter_cons_of_pos (by simp [hparams]),
      firstMatch_of_ok (fun earlier hmem => ?_) hok]
    obtain ⟨hmem, hfilter⟩ := List.mem_filter.mp hmem
    exact hbefore earlier hmem (by simpa using hfilter)
  | case hfails hname hshapes hbefore hcase =>
    have hall : ∀ shape ∈ (catalog.candidates node.selector).filter (!·.isBareCase),
        ∃ e, d.attempt catalog.typeName node shape = .error e := fun shape hmem => by
      obtain ⟨hmem, hfilter⟩ := List.mem_filter.mp hmem
      exact hfails shape hmem (by simpa using hfilter)
    obtain ⟨entries, hentries⟩ := firstMatch_of_all_fail catalog.typeName hall
    rw [hentries, hshapes, matchCase_of_first hname hbefore hcase]
  | failure hfails hcases =>
    rw [firstMatch_of_fails hfails, matchCase_of_entries hcases]

theorem Decoder.exists_outcome (d : Decoder) (catalog : Catalog) (node : Node)
    (shapes : List Shape) : ∃ result, d.Outcome catalog node shapes result := by
  rcases exists_first_or_fails catalog.typeName (d.attempt catalog.typeName node)
    (shapes.filter (!·.isBareCase)) with ⟨before, shape, after, r, heq, hbefore, hok⟩ |
    ⟨entries, hentries⟩
  · obtain ⟨before', rest, hshapes, hfilter, hrest⟩ := List.filter_eq_append_iff.mp heq
    obtain ⟨skipped, after', hrest', hskipped, hshape, -⟩ := List.filter_eq_cons_iff.mp hrest
    have hsplit : shapes = (before' ++ skipped) ++ shape :: after' := by
      rw [hshapes, hrest', List.append_assoc]
    refine ⟨.ok r, .shape hsplit (fun earlier hmem hparams => ?_) (by simpa using hshape) hok⟩
    rcases List.mem_append.mp hmem with hmem | hmem
    · refine hbefore earlier ?_
      rw [← hfilter]
      exact List.mem_filter.mpr ⟨hmem, by simp [hparams]⟩
    · exact absurd (by simp [hparams]) (hskipped earlier hmem)
  · have hfails : ∀ shape ∈ shapes, shape.isBareCase = false →
        ∃ e, d.attempt catalog.typeName node shape = .error e := by
      intro shape hmem hparams
      exact exists_error_of_fails hentries shape (List.mem_filter.mpr ⟨hmem, by simp [hparams]⟩)
    rcases exists_case_or_entries node shapes with
      ⟨before, case, after, name, hshapes, hname, hbefore, hcase⟩ | ⟨caseEntries, hcases⟩
    · exact ⟨_, .case hfails hname hshapes hbefore hcase⟩
    · exact ⟨_, .failure hentries hcases⟩

theorem Decoder.outcome_of_decode {result : Except DecodeFailures Resolvable}
    (h : d.decode node catalog = result) :
    d.Outcome catalog node (catalog.candidates node.selector) result := by
  obtain ⟨result', hresult'⟩ := d.exists_outcome catalog node (catalog.candidates node.selector)
  rw [← h, hresult'.decode_eq]
  exact hresult'

theorem Catalog.candidates_of_single {catalog : Catalog} {shape : Shape}
    (h : catalog.shapes = [shape]) (selector : Option String) :
    catalog.candidates selector = [shape] := by
  by_cases hkeyed : ∃ key, selector = some key ∧ key ≠ catalog.typeName ∧ shape.isKeyedBy key
  · obtain ⟨key, rfl, hkey, hshape⟩ := hkeyed
    rw [candidates_of_keyed hkey ⟨shape, by simp [h], hshape⟩, h]
    simp [hshape]
  · rw [candidates_of_whole fun key hselector hkey s hs => ?_, h]
    rw [h, List.mem_singleton] at hs
    subst hs
    exact fun hshape => hkeyed ⟨key, hselector, hkey, hshape⟩

theorem Decoder.decode_single {alone : Catalog} {shape : Shape} (h : alone.shapes = [shape])
    (hparams : shape.isBareCase = false) :
    d.decode node alone =
      match d.attempt alone.typeName node shape with
      | .ok r => .ok r
      | .error e =>
        .error ⟨alone.typeName, [⟨shape.label alone.typeName, e⟩], node.annotations⟩ := by
  have hcases : [shape].filter (·.isBareCase) = [] := by simp [hparams]
  have hshapes : [shape].filter (!·.isBareCase) = [shape] := by simp [hparams]
  rw [d.decode_eq, Catalog.candidates_of_single h, hshapes, hcases]
  cases hattempt : d.attempt alone.typeName node shape with
  | ok r => simp [firstMatch, hattempt]
  | error e => simp [firstMatch, hattempt, matchCase]

/-- **First match wins, and failures are complete.**  Decoding a node against a catalog gives
exactly the outcome on the shapes that its selector leaves; and what a shape with parameters comes
to is what the node decodes to against a catalog of this shape alone. -/
theorem decode_iff_outcome (d : Decoder) (catalog : Catalog) (node : Node) :
    catalog.Selects node.selector (catalog.candidates node.selector) ∧
    (∀ result, d.decode node catalog = result ↔
      d.Outcome catalog node (catalog.candidates node.selector) result) ∧
    ∀ (shape : Shape) (alone : Catalog), shape.isBareCase = false →
      alone.typeName = catalog.typeName → alone.shapes = [shape] →
      d.decode node alone =
        match d.attempt catalog.typeName node shape with
        | .ok r => .ok r
        | .error e =>
          .error ⟨catalog.typeName, [⟨shape.label catalog.typeName, e⟩], node.annotations⟩ := by
  refine ⟨catalog.selects_candidates node.selector, ?_, ?_⟩
  · intro result
    constructor
    · exact Decoder.outcome_of_decode
    · intro h
      exact h.decode_eq
  · intro shape alone hparams hname halone
    rw [← hname]
    exact Decoder.decode_single halone hparams

/-- A case that stands before two shapes, both of which take the node's argument. -/
theorem decode_iff_outcome_count :
    let params : List Param := [.positional (.leaf .int)]
    let first := Shape.enumCase "first" params (.constant (.int 1))
    let second := Shape.enumCase "second" params (.constant (.int 2))
    let zero := Shape.bareCase "zero" (.constant (.int 0))
    let catalog : Catalog := ⟨"Count", none, [zero, first, second]⟩
    let alone : Catalog := ⟨"Count", none, [second]⟩
    let node : Node := Node.member none [⟨none, .literal (.int 7)⟩]
    let d := (Registry.empty .ios).decoder
    d.Outcome catalog node (catalog.candidates none) (.ok (.constant (.int 1))) ∧
      second.isBareCase = false ∧ d.decode node alone = .ok (.constant (.int 2)) := by
  intro params first second zero catalog alone node d
  have hdecode : d.decode node catalog = .ok (.constant (.int 1)) := rfl
  refine ⟨((decode_iff_outcome d catalog node).2.1 _).mp hdecode, rfl, ?_⟩
  exact (decode_iff_outcome d catalog node).2.2 second alone rfl rfl rfl

end DeferredStyle
