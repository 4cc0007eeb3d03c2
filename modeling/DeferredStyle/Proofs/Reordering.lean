import DeferredStyle.Proofs.Simulation
import DeferredStyle.Vocabulary.Standard

/-!
# Reordered arguments

Labeled arguments are found by their labels and positional ones by their order.  So labeled
arguments may move freely: what a shape is bound to changes only if the positional arguments trade
places.

* `bindArguments_perm` — binding the arguments of a shape in another order.
* `bindArguments_related` — binding arguments that carry related values.
* `Term.Reordered` — terms that differ in the places of labeled arguments, at any depth.
* `decode_reordered` — such nodes decode to the same tree, or fail at the same shapes.
-/

set_option autoImplicit false

namespace DeferredStyle

universe u v

variable {V : Type u} {W : Type v}

/-! ## Labeled arguments -/

theorem lookup?_perm {labeled labeled' : List (String × V)}
    (hnodup : (labeled.map Prod.fst).Nodup) (hperm : labeled.Perm labeled') (label : String) :
    Table.lookup? label labeled = Table.lookup? label labeled' := by
  have hnodup' : (labeled'.map Prod.fst).Nodup := (hperm.map Prod.fst).nodup hnodup
  apply Option.ext
  intro value
  rw [lookup?_eq_some_iff_mem hnodup, lookup?_eq_some_iff_mem hnodup', hperm.mem_iff]

/-- A label that is known and new is remembered. -/
theorem labelError?_cons_of_pass {known seen : List String} {labeled : List (String × V)}
    {label : String} {value : V} (hknown : label ∈ known) (hseen : label ∉ seen) :
    labelError? known seen ((label, value) :: labeled) =
      labelError? known (label :: seen) labeled := by
  simp [labelError?, hknown, hseen]

/-- Labels pass if each is known and comes once. -/
theorem labelError?_eq_none_iff {known seen : List String} {labeled : List (String × V)} :
    labelError? known seen labeled = none ↔
      (labeled.map Prod.fst).Nodup ∧
        ∀ label ∈ labeled.map Prod.fst, label ∈ known ∧ label ∉ seen := by
  induction labeled generalizing seen with
  | nil => simp [labelError?]
  | cons entry labeled ih =>
    obtain ⟨label, value⟩ := entry
    rw [labelError?]
    by_cases hknown : label ∈ known
    · by_cases hseen : label ∈ seen
      · simp [hknown, hseen]
      · simp only [List.contains_eq_mem, hknown, hseen, decide_true, decide_false, Bool.not_true,
          Bool.false_eq_true, if_false, ih, List.map_cons, List.nodup_cons, List.mem_cons, not_or]
        grind
    · simp [hknown]

theorem labelError?_perm (known : List String) {labeled labeled' : List (String × V)}
    (hperm : labeled.Perm labeled') :
    labelError? known [] labeled = none ↔ labelError? known [] labeled' = none := by
  have hlabels := hperm.map Prod.fst
  rw [labelError?_eq_none_iff, labelError?_eq_none_iff, hlabels.nodup_iff]
  simp only [hlabels.mem_iff]

/-! ## Binding in another order -/

/-- Parameters are filled by look-ups of labels that are not taken. -/
theorem fillParams_congr {labeled labeled' : List (String × V)} {taken : List String}
    (h : ∀ label ∉ taken, Table.lookup? label labeled = Table.lookup? label labeled')
    (params : List Param) (positional : List V) :
    fillParams labeled taken params positional = fillParams labeled' taken params positional := by
  induction params generalizing taken positional with
  | nil => rfl
  | cons param params ih =>
    have hparam : bindParam labeled taken param positional =
        bindParam labeled' taken param positional := by
      unfold bindParam
      cases param.label with
      | none => rfl
      | some label =>
        by_cases htaken : label ∈ taken
        · simp only [List.contains_eq_mem, htaken, decide_true, if_true]
        · simp only [h label htaken]
    have hrest : ∀ label ∉ takenAfter taken param,
        Table.lookup? label labeled = Table.lookup? label labeled' := by
      intro label hlabel
      exact h label fun htaken => hlabel (mem_takenAfter_of_mem htaken)
    rw [fillParams_cons, fillParams_cons, hparam, ih hrest]

/-- **Binding does not depend on where labeled arguments stand.** -/
theorem bindArguments_perm {arguments arguments' : List (Argument V)}
    (hperm : arguments.Perm arguments')
    (horder : arguments.filter (!·.isLabeled) = arguments'.filter (!·.isLabeled))
    (params : List Param) :
    Related (fun _ _ => True) Eq (bindArguments params arguments)
      (bindArguments params arguments') := by
  have hlabeled : (labeledArguments arguments).Perm (labeledArguments arguments') := by
    rw [labeledArguments_eq, labeledArguments_eq]
    exact hperm.filterMap _
  have hpositional : positionalArguments arguments = positionalArguments arguments' := by
    rw [positionalArguments_eq, positionalArguments_eq, horder]
  have hnone := labelError?_perm (paramLabels params) hlabeled
  simp only [bindArguments, ← hpositional]
  cases herror : labelError? (paramLabels params) [] (labeledArguments arguments) with
  | some e =>
    cases herror' : labelError? (paramLabels params) [] (labeledArguments arguments') with
    | some e' => exact .error trivial
    | none =>
      rw [hnone.mpr herror'] at herror
      cases herror
  | none =>
    rw [hnone.mp herror]
    simp only
    split
    · exact .error trivial
    · have hnodup := (labelError?_eq_none_iff.mp herror).1
      rw [fillParams_congr fun label _ => lookup?_perm hnodup hlabeled label]
      exact .refl (fun _ => trivial) (fun _ => rfl) _

/-! ## Binding related values -/

/-- Bindings to related values, or to the same default. -/
inductive Binding.Alike (R : V → W → Prop) : Binding V → Binding W → Prop
  | given {value : V} {value' : W} (h : R value value') : Alike R (.given value) (.given value')
  | default (literal : Literal) : Alike R (.default literal) (.default literal)

/-- Arguments with the same labels and related values. -/
def ArgumentsAlike (R : V → W → Prop) (arguments : List (Argument V))
    (arguments' : List (Argument W)) : Prop :=
  arguments.map Argument.label = arguments'.map Argument.label ∧
    List.Forall₂ R (arguments.map Argument.value) (arguments'.map Argument.value)

/-- Two such lists are the two sides of one list of pairs. -/
theorem ArgumentsAlike.exists_pairs {R : V → W → Prop} {arguments : List (Argument V)}
    {arguments' : List (Argument W)} (h : ArgumentsAlike R arguments arguments') :
    ∃ pairs : List (Argument (V × W)), pairs.map (Argument.map Prod.fst) = arguments ∧
      pairs.map (Argument.map Prod.snd) = arguments' ∧ ∀ a ∈ pairs, R a.value.1 a.value.2 := by
  induction arguments generalizing arguments' with
  | nil =>
    cases arguments' with
    | nil => exact ⟨[], rfl, rfl, nofun⟩
    | cons a' arguments' => cases h.1
  | cons a arguments ih =>
    cases arguments' with
    | nil => cases h.1
    | cons a' arguments' =>
      obtain ⟨label, value⟩ := a
      obtain ⟨label', value'⟩ := a'
      obtain ⟨hlabels, hvalues⟩ := h
      simp only [List.map_cons, List.cons.injEq] at hlabels
      obtain ⟨rfl, hlabels⟩ := hlabels
      obtain ⟨hhead, htail⟩ := List.forall₂_cons.mp hvalues
      obtain ⟨pairs, rfl, rfl, hpairs⟩ := ih ⟨hlabels, htail⟩
      exact ⟨⟨label, value, value'⟩ :: pairs, rfl, rfl,
        List.forall_mem_cons.mpr ⟨hhead, hpairs⟩⟩

/-- **Binding relates what it is given.** -/
theorem bindArguments_related {R : V → W → Prop} {arguments : List (Argument V)}
    {arguments' : List (Argument W)} (h : ArgumentsAlike R arguments arguments')
    (params : List Param) :
    Related Eq (List.Forall₂ (Binding.Alike R)) (bindArguments params arguments)
      (bindArguments params arguments') := by
  obtain ⟨pairs, rfl, rfl, hpairs⟩ := h.exists_pairs
  rw [bindArguments_map, bindArguments_map]
  cases hbindings : bindArguments params pairs with
  | error e => exact .error rfl
  | ok bindings =>
    refine .ok ?_
    rw [List.forall₂_map_left_iff, List.forall₂_map_right_iff, List.forall₂_same]
    intro binding hbinding
    cases binding with
    | given pair =>
      obtain ⟨a, ha, rfl⟩ := mem_of_bindArguments hbindings hbinding
      exact .given (hpairs a ha)
    | default literal => exact .default literal

/-! ## Reordered terms and nodes -/

/-- Terms that differ in the places of labeled arguments.  In every call, the arguments are
themselves reordered first and then rearranged, and the positional ones keep their order. -/
inductive Term.Reordered : Term → Term → Prop
  | literal (literal : Literal) : Reordered (.literal literal) (.literal literal)
  | reference (name : String) (annotations : Annotations) :
      Reordered (.reference name annotations) (.reference name annotations)
  | list {items items' : List Term} (hitems : List.Forall₂ Reordered items items') :
      Reordered (.list items) (.list items')
  | call {tag : String} {annotations : Annotations} {selector : Option String}
      {arguments between arguments' : List (Argument Term)}
      (hlabels : arguments.map Argument.label = between.map Argument.label)
      (hvalues : List.Forall₂ Reordered (arguments.map Argument.value)
        (between.map Argument.value))
      (hperm : between.Perm arguments')
      (horder : between.filter (!·.isLabeled) = arguments'.filter (!·.isLabeled)) :
      Reordered (.call ⟨tag, annotations, selector, arguments⟩)
        (.call ⟨tag, annotations, selector, arguments'⟩)

/-- Nodes that differ in the places of labeled arguments, their own and those of the nodes inside
them. -/
def Node.Reordered (node node' : Node) : Prop :=
  Term.Reordered (.call node) (.call node')

/-- The trailing name is an only argument, which cannot be moved. -/
theorem trailingCaseName?_reordered {selector : Option String}
    {arguments between arguments' : List (Argument Term)}
    (h : ArgumentsAlike Term.Reordered arguments between) (hperm : between.Perm arguments') :
    trailingCaseName? selector arguments = trailingCaseName? selector arguments' := by
  obtain ⟨pairs, rfl, rfl, hpairs⟩ := h.exists_pairs
  match pairs with
  | [] => rw [List.nil_perm.mp hperm, List.map_nil]
  | [pair] =>
    rw [← List.singleton_perm.mp hperm]
    obtain ⟨label, value, value'⟩ := pair
    have hvalue : Term.Reordered value value' := hpairs _ List.mem_cons_self
    cases hvalue <;> cases label <;> rfl
  | first :: second :: pairs =>
    have hlength : 2 ≤ arguments'.length := by simp [← hperm.length_eq]
    match arguments' with
    | [] => simp at hlength
    | [a] => simp at hlength
    | a :: b :: rest => simp [trailingCaseName?]

/-! ## Decoding -/

/-- Two terms that are decoded to the same tree, or both not, whatever they are decoded as. -/
def DecodeTogether (d : Decoder) (term term' : Term) : Prop :=
  ∀ rule label default, Related (fun _ _ => True) Eq (d.decodeTerm term rule label default)
    (d.decodeTerm term' rule label default)

/-- Failures with entries for the same shapes in the same order. -/
def SameShapes (failures failures' : DecodeFailures) : Prop :=
  failures.shapes = failures'.shapes

variable {d : Decoder}

theorem shapes_eq_of_entriesRelated {E : DecodeError → DecodeError → Prop}
    {entries entries' : List (Attempt DecodeError)} (h : EntriesRelated E entries entries') :
    entries.map Attempt.shape = entries'.map Attempt.shape := by
  induction h with
  | nil => rfl
  | cons hentry _ ih => rw [List.map_cons, List.map_cons, hentry.1, ih]

theorem decodeParam_together {binding binding' : Binding Term}
    (h : binding.Alike (DecodeTogether d) binding') (param : Param) :
    Related (fun _ _ => True) Eq (decodeParam d.registry param (binding.map d.decodeTerm))
      (decodeParam d.registry param (binding'.map d.decodeTerm)) := by
  cases h with
  | given hterm => exact hterm _ _ _
  | default literal => exact .refl (fun _ => trivial) (fun _ => rfl) _

/-- The bindings of a shape before and after its arguments are reordered. -/
theorem bindings_together {arguments between arguments' : List (Argument Term)}
    (halike : ArgumentsAlike (DecodeTogether d) arguments between)
    (hperm : between.Perm arguments')
    (horder : between.filter (!·.isLabeled) = arguments'.filter (!·.isLabeled))
    (params : List Param) :
    Related (fun _ _ => True) (List.Forall₂ (Binding.Alike (DecodeTogether d)))
      (bindArguments params arguments) (bindArguments params arguments') := by
  have hvalues := bindArguments_related halike params
  have hplaces := bindArguments_perm hperm horder params
  revert hvalues hplaces
  generalize bindArguments params arguments = x
  generalize bindArguments params between = y
  generalize bindArguments params arguments' = z
  rintro (he | hbindings) hplaces
  · cases hplaces with
    | error _ => exact .error trivial
  · cases hplaces with
    | ok heq => exact .ok (heq ▸ hbindings)

theorem attempt_together {node node' : Node} {between : List (Argument Term)}
    (halike : ArgumentsAlike (DecodeTogether d) node.arguments between)
    (hperm : between.Perm node'.arguments)
    (horder : between.filter (!·.isLabeled) = node'.arguments.filter (!·.isLabeled))
    (typeName : String) (shape : Shape) :
    Related (fun _ _ => True) Eq (d.attempt typeName node shape)
      (d.attempt typeName node' shape) := by
  have hbindings := bindings_together halike hperm horder shape.params
  rw [d.attempt_eq, d.attempt_eq]
  revert hbindings
  generalize bindArguments shape.params node.arguments = x
  generalize bindArguments shape.params node'.arguments = y
  rintro (he | hbindings)
  · exact .error trivial
  · rename_i bindings bindings'
    have hchildren : Related (fun _ _ => True) (List.Forall₂ Eq)
        (decodeParams d.registry shape.params (bindings.map (Binding.map d.decodeTerm)))
        (decodeParams d.registry shape.params (bindings'.map (Binding.map d.decodeTerm))) := by
      apply decodeParams_related
      rw [List.forall₂_map_left_iff, List.forall₂_map_right_iff]
      exact hbindings.imp fun _ _ hbinding param _ => decodeParam_together hbinding param
    refine hchildren.map fun children children' heq => ?_
    rw [List.forall₂_eq_eq_eq] at heq
    rw [heq]

/-- Nodes whose arguments decode together decode together. -/
theorem decode_together {tag : String} {annotations : Annotations} {selector : Option String}
    {arguments between arguments' : List (Argument Term)}
    (hreordered : ArgumentsAlike Term.Reordered arguments between)
    (halike : ArgumentsAlike (DecodeTogether d) arguments between)
    (hperm : between.Perm arguments')
    (horder : between.filter (!·.isLabeled) = arguments'.filter (!·.isLabeled))
    (catalog : Catalog) :
    Related SameShapes Eq (d.decode ⟨tag, annotations, selector, arguments⟩ catalog)
      (d.decode ⟨tag, annotations, selector, arguments'⟩ catalog) := by
  refine Decoder.decode_related (E := fun _ _ => True) ?_ ?_ ?_ ?_ ?_
  · rfl
  · exact trailingCaseName?_reordered hreordered hperm
  · intro shape _ _
    exact attempt_together halike hperm horder catalog.typeName shape
  · intro case _ _
    rfl
  · intro entries entries' cases hentries
    simp only [SameShapes, Failures.shapes, List.map_append,
      shapes_eq_of_entriesRelated hentries]

/-- Reordered terms decode together: by induction on the first of them. -/
theorem decodeTogether_of_reordered {term term' : Term} (h : term.Reordered term') :
    DecodeTogether d term term' := by
  induction term generalizing term' with
  | literal literal =>
    cases h
    exact fun rule label default => .refl (fun _ => trivial) (fun _ => rfl) _
  | reference name annotations =>
    cases h
    exact fun rule label default => .refl (fun _ => trivial) (fun _ => rfl) _
  | list items ih =>
    cases h with
    | list hitems =>
      rename_i items'
      intro rule label default
      refine decodeList_related trivial (fun item rs rs' _ hrs => ?_) fun item _ => ?_
      · rw [List.forall₂_eq_eq_eq] at hrs
        rw [hrs]
      · apply decodeItems_related
        refine List.forall₂_iff_zip.mpr ⟨hitems.length_eq, fun {a b} hmem => ?_⟩
        exact ih a (List.of_mem_zip hmem).1 (List.forall₂_zip hitems hmem) _ _ _
  | call node ih =>
    cases h with
    | call hlabels hvalues hperm horder =>
      rename_i tag annotations selector arguments between arguments'
      have halike : ArgumentsAlike (DecodeTogether d) arguments between := by
        refine ⟨hlabels, List.forall₂_iff_zip.mpr ⟨hvalues.length_eq, fun {a b} hmem => ?_⟩⟩
        obtain ⟨argument, hargument, rfl⟩ := List.mem_map.mp (List.of_mem_zip hmem).1
        exact ih argument hargument (List.forall₂_zip hvalues hmem)
      intro rule label default
      apply decodeNested_related (F := SameShapes) trivial (fun _ => trivial)
        (fun _ _ _ => trivial)
      intro name catalog _
      exact decode_together ⟨hlabels, hvalues⟩ halike hperm horder catalog

theorem related_of_reordered {node node' : Node} (h : node.Reordered node') (catalog : Catalog) :
    Related SameShapes Eq (d.decode node catalog) (d.decode node' catalog) := by
  cases h with
  | call hlabels hvalues hperm horder =>
    have halike : ArgumentsAlike (DecodeTogether d) _ _ :=
      ⟨hlabels, hvalues.imp fun _ _ => decodeTogether_of_reordered⟩
    exact decode_together ⟨hlabels, hvalues⟩ halike hperm horder catalog

/-- **The order of arguments matters for the positional ones only.**  Moving labeled arguments, in
a node and in the nodes inside it, changes neither whether the node can be decoded nor the tree it is
decoded to; and if it cannot, the failures still list the same shapes in the same order. -/
theorem decode_reordered (d : Decoder) (catalog : Catalog) {node node' : Node}
    (h : node.Reordered node') :
    (∀ r, d.decode node catalog = .ok r ↔ d.decode node' catalog = .ok r) ∧
    ((∃ failures, d.decode node catalog = .error failures) ↔
      ∃ failures, d.decode node' catalog = .error failures) ∧
    ∀ failures failures', d.decode node catalog = .error failures →
      d.decode node' catalog = .error failures' → failures.shapes = failures'.shapes := by
  have hrelated := related_of_reordered (d := d) h catalog
  revert hrelated
  generalize d.decode node catalog = x
  generalize d.decode node' catalog = y
  rintro (hshapes | rfl)
  · refine ⟨fun r => ⟨nofun, nofun⟩, ⟨fun _ => ⟨_, rfl⟩, fun _ => ⟨_, rfl⟩⟩, ?_⟩
    intro failures failures' heq heq'
    cases heq
    cases heq'
    exact hshapes
  · refine ⟨fun r => Iff.rfl, Iff.rfl, ?_⟩
    intro failures failures' heq
    cases heq

/-- A label and a font, in either order, with the font's own arguments in either order. -/
theorem decode_reordered_line :
    let text : Argument Term := ⟨none, .literal (.string "A")⟩
    let size : Argument Term := ⟨some "size", .literal (.int 12)⟩
    let weight : Argument Term := ⟨some "weight", .literal (.string "bold")⟩
    let font (arguments : List (Argument Term)) : Argument Term :=
      ⟨some "font", .call (Node.member (some "system") arguments)⟩
    let node := Node.member none [text, font [size, weight]]
    let node' := Node.member none [font [weight, size], text]
    let line := Shape.initializer
      [.positional (.leaf .string), .labeled "font" (.type "Font")] .list
    let catalog : Catalog := ⟨"Line", none, [line]⟩
    let d := ((Registry.empty .ios).registerAll
      [Vocabulary.font, Vocabulary.fontWeight, Vocabulary.fontDesign]).decoder
    node.Reordered node' ∧
      ∃ r, d.decode node catalog = .ok r ∧ d.decode node' catalog = .ok r := by
  intro text size weight font node node' line catalog d
  have hfont : Term.Reordered (font [size, weight]).value (font [weight, size]).value := by
    have hvalues : List.Forall₂ Term.Reordered
        [size.value, weight.value] [size.value, weight.value] :=
      .cons (.literal _) (.cons (.literal _) .nil)
    exact .call rfl hvalues (.swap weight size []) rfl
  have hreordered : node.Reordered node' := by
    have hvalues : List.Forall₂ Term.Reordered
        [text.value, (font [size, weight]).value] [text.value, (font [weight, size]).value] :=
      .cons (.literal _) (.cons hfont .nil)
    have hlabels : [text, font [size, weight]].map Argument.label =
        [text, font [weight, size]].map Argument.label := rfl
    exact .call hlabels hvalues (.swap (font [weight, size]) text []) rfl
  have hok : (d.decode node catalog).isOk = true := by decide +kernel
  obtain ⟨r, hr⟩ := exists_ok_of_isOk hok
  exact ⟨hreordered, r, hr, ((decode_reordered d catalog hreordered).1 r).mp hr⟩

end DeferredStyle
