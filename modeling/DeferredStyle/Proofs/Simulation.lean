import DeferredStyle.Proofs.Candidates

/-!
# Two decodings side by side

Two decodings that agree on arguments agree on nodes.  What agreement means is open: `E` and `F`
relate the errors of arguments and of nodes, `R` relates trees.

* `decodeParams_related`, `decodeItems_related` — the children of a shape and the items of a list.
* `decodeNested_related`, `decodeList_related` — nodes and lists as arguments.
* `Decoder.decode_related` — nodes against a catalog.
-/

set_option autoImplicit false

namespace DeferredStyle

variable {E : DecodeError → DecodeError → Prop} {F : DecodeFailures → DecodeFailures → Prop}
  {R : Resolvable → Resolvable → Prop}

/-! ## Children and items -/

theorem decodeParams_related {registry registry' : Registry} {params : List Param}
    {bindings bindings' : List (Binding Reading)}
    (h : List.Forall₂ (fun binding binding' => ∀ param ∈ params,
      Related E R (decodeParam registry param binding) (decodeParam registry' param binding'))
      bindings bindings') :
    Related E (List.Forall₂ R) (decodeParams registry params bindings)
      (decodeParams registry' params bindings') := by
  induction params generalizing bindings bindings' with
  | nil => exact .ok .nil
  | cons param params ih =>
    cases h with
    | nil => exact .ok .nil
    | cons hhead htail =>
      rename_i binding binding' bindings bindings'
      have hrest : Related E (List.Forall₂ R) (decodeParams registry params bindings)
          (decodeParams registry' params bindings') :=
        ih (htail.imp fun _ _ hb p hp => hb p (List.mem_cons_of_mem param hp))
      have hparam := hhead param List.mem_cons_self
      rw [decodeParams, decodeParams]
      revert hparam
      generalize decodeParam registry param binding = x
      generalize decodeParam registry' param binding' = x'
      rintro (he | hr)
      · exact .error he
      · exact hrest.map fun _ _ hrs => .cons hr hrs

theorem decodeItems_related {d d' : Decoder} {items items' : List Term} {rule : Rule}
    {label : String}
    (h : List.Forall₂ (fun item item' => Related E R (d.decodeTerm item rule label none)
      (d'.decodeTerm item' rule label none)) items items') :
    Related E (List.Forall₂ R) (d.decodeItems items rule label)
      (d'.decodeItems items' rule label) := by
  induction h with
  | nil => exact .ok .nil
  | cons hitem _ ih =>
    rename_i item item' items items' _
    rw [Decoder.decodeItems_cons, Decoder.decodeItems_cons]
    revert hitem
    generalize d.decodeTerm item rule label none = x
    generalize d'.decodeTerm item' rule label none = x'
    rintro (he | hr)
    · exact .error he
    · exact ih.map fun _ _ hrs => .cons hr hrs

/-! ## Arguments -/

theorem decodeNested_related {registry : Registry} {rule : Rule} {label : String}
    {found found' : Term} {decode decode' : Catalog → Except DecodeFailures Resolvable}
    (hfound : E (incorrect label rule found) (incorrect label rule found'))
    (hunknown : ∀ name, E (.unknownType name) (.unknownType name))
    (hnested : ∀ failures failures', F failures failures' →
      E (.nested label failures) (.nested label failures'))
    (h : ∀ name catalog, registry.catalog? name = some catalog →
      Related F R (decode catalog) (decode' catalog)) :
    Related E R (decodeNested registry rule label found decode)
      (decodeNested registry rule label found' decode') := by
  unfold decodeNested
  split
  · split
    · exact .error (hunknown _)
    · rename_i catalog hcatalog
      have hnode := h _ catalog hcatalog
      revert hnode
      generalize decode catalog = x
      generalize decode' catalog = x'
      rintro (hf | hr)
      · exact .error (hnested _ _ hf)
      · exact .ok hr
  · exact .error hfound

theorem decodeList_related {folds folds' : Bool} {rule : Rule} {label : String}
    {found found' : Term} {decode decode' : Rule → Except DecodeError (List Resolvable)}
    (hfound : E (incorrect label rule found) (incorrect label rule found'))
    (hfinish : ∀ item items items', rule = .list item → List.Forall₂ R items items' →
      R (finishList folds rule items) (finishList folds' rule items'))
    (h : ∀ item, rule = .list item → Related E (List.Forall₂ R) (decode item) (decode' item)) :
    Related E R (decodeList folds rule label found decode)
      (decodeList folds' rule label found' decode') := by
  unfold decodeList
  split
  · rename_i item
    have hitems := h item rfl
    revert hitems
    generalize decode item = x
    generalize decode' item = x'
    rintro (he | hrs)
    · exact .error he
    · exact .ok (hfinish item _ _ rfl hrs)
  · exact .error hfound

/-! ## Nodes -/

/-- Entries for the same shapes with related errors. -/
def EntriesRelated (E : DecodeError → DecodeError → Prop) :
    List (Attempt DecodeError) → List (Attempt DecodeError) → Prop :=
  List.Forall₂ fun entry entry' => entry.shape = entry'.shape ∧ E entry.error entry'.error

theorem EntriesRelated.eq {entries entries' : List (Attempt DecodeError)}
    (h : EntriesRelated Eq entries entries') : entries = entries' := by
  have hentries : List.Forall₂ Eq entries entries' := by
    refine List.Forall₂.imp (fun entry entry' ⟨hshape, herror⟩ => ?_) h
    obtain ⟨shape, error⟩ := entry
    cases hshape
    cases herror
    rfl
  rwa [List.forall₂_eq_eq_eq] at hentries

theorem firstMatch_related {typeName : String}
    {attempt attempt' : Shape → Except DecodeError Resolvable} {shapes : List Shape}
    (h : ∀ shape ∈ shapes, Related E R (attempt shape) (attempt' shape)) :
    Related (EntriesRelated E) R (firstMatch typeName attempt shapes)
      (firstMatch typeName attempt' shapes) := by
  induction shapes with
  | nil => exact .error .nil
  | cons shape shapes ih =>
    have hshape := h shape List.mem_cons_self
    have hrest := ih fun s hs => h s (List.mem_cons_of_mem shape hs)
    rw [firstMatch, firstMatch]
    revert hshape hrest
    generalize attempt shape = x
    generalize attempt' shape = x'
    generalize firstMatch typeName attempt shapes = y
    generalize firstMatch typeName attempt' shapes = y'
    rintro (he | hr) (hes | hr')
    · exact .error (.cons ⟨rfl, he⟩ hes)
    · exact .ok hr'
    · exact .ok hr
    · exact .ok hr

theorem matchCase_related {folds folds' : Bool} {typeName : String} {cases : List Shape}
    (name : Option String)
    (h : ∀ case ∈ cases, R (finishShape folds (case.label typeName) case [])
      (finishShape folds' (case.label typeName) case [])) :
    Related Eq R (matchCase folds typeName cases name) (matchCase folds' typeName cases name) := by
  unfold matchCase
  split
  · exact .error rfl
  · exact .error rfl
  · split
    · rename_i case hfind
      exact .ok (h case (List.mem_of_find?_eq_some hfind))
    · exact .error rfl

/-- **Two decoders that agree on each shape of a catalog agree on the catalog.** -/
theorem Decoder.decode_related {d d' : Decoder} {node node' : Node} {catalog : Catalog}
    (hselector : node.selector = node'.selector)
    (hname : trailingCaseName? node.selector node.arguments =
      trailingCaseName? node'.selector node'.arguments)
    (hattempt : ∀ shape ∈ catalog.shapes, shape.isBareCase = false →
      Related E R (d.attempt catalog.typeName node shape) (d'.attempt catalog.typeName node' shape))
    (hcase : ∀ case ∈ catalog.shapes, case.isBareCase = true →
      R (finishShape d.folds (case.label catalog.typeName) case [])
        (finishShape d'.folds (case.label catalog.typeName) case []))
    (hfailures : ∀ entries entries' cases, EntriesRelated E entries entries' →
      F ⟨catalog.typeName, entries ++ cases, node.annotations⟩
        ⟨catalog.typeName, entries' ++ cases, node'.annotations⟩) :
    Related F R (d.decode node catalog) (d'.decode node' catalog) := by
  have hfirst : Related (EntriesRelated E) R
      (firstMatch catalog.typeName (d.attempt catalog.typeName node)
        ((catalog.candidates node.selector).filter (!·.isBareCase)))
      (firstMatch catalog.typeName (d'.attempt catalog.typeName node')
        ((catalog.candidates node.selector).filter (!·.isBareCase))) :=
    firstMatch_related fun shape hs => by
      obtain ⟨hmem, hparams⟩ := List.mem_filter.mp hs
      exact hattempt shape (Catalog.mem_of_mem_candidates hmem) (by simpa using hparams)
  have hcases : Related Eq R
      (matchCase d.folds catalog.typeName ((catalog.candidates node.selector).filter (·.isBareCase))
        (trailingCaseName? node.selector node.arguments))
      (matchCase d'.folds catalog.typeName
        ((catalog.candidates node.selector).filter (·.isBareCase))
        (trailingCaseName? node.selector node.arguments)) :=
    matchCase_related _ fun case hs => by
      obtain ⟨hmem, hbare⟩ := List.mem_filter.mp hs
      exact hcase case (Catalog.mem_of_mem_candidates hmem) hbare
  rw [d.decode_eq, d'.decode_eq, ← hname, ← hselector]
  revert hfirst hcases
  generalize firstMatch catalog.typeName (d.attempt catalog.typeName node) _ = x
  generalize firstMatch catalog.typeName (d'.attempt catalog.typeName node') _ = x'
  generalize matchCase d.folds _ _ _ = y
  generalize matchCase d'.folds _ _ _ = y'
  rintro (hes | hr) (hcs | hr')
  · exact .error (hcs ▸ hfailures _ _ _ hes)
  · exact .ok hr'
  · exact .ok hr
  · exact .ok hr

end DeferredStyle
