import DeferredStyle.Proofs.Folding
import DeferredStyle.Proofs.Reordering

/-!
# The spellings of a default

A parameter with a default may be left out, given its default, or given a reference to an attribute.
The first two are the same to the decoder.  The third has the same result wherever the attribute has
no value.

* `Supplies` — two bindings apart at one place: a default there, or a value.
* `bindArguments_insert` — one more labeled argument changes the binding of its parameter only.
* `decodeShape_eq_ok_iff` — a shape on arguments whose binding is known around one parameter.
* `AttributeBinding.LacksValue` — when a bound attribute falls back to its default.
* `default_spellings` — the three spellings side by side.
-/

set_option autoImplicit false

namespace DeferredStyle

universe u

variable {V : Type u}

/-! ## One more labeled argument -/

section Labels

variable {known seen seen' : List String} {labeled front back : List (String × V)}

/-- Whether a label came before matters only if it comes again. -/
theorem labelError?_congr (h : ∀ label ∈ labeled.map Prod.fst, label ∈ seen ↔ label ∈ seen') :
    labelError? known seen labeled = labelError? known seen' labeled := by
  induction labeled generalizing seen seen' with
  | nil => rfl
  | cons entry labeled ih =>
    obtain ⟨label, value⟩ := entry
    obtain ⟨hlabel, hrest⟩ := List.forall_mem_cons.mp h
    have hstep : labelError? known (label :: seen) labeled =
        labelError? known (label :: seen') labeled :=
      ih fun later hlater => by rw [List.mem_cons, List.mem_cons, hrest later hlater]
    simp only [labelError?, List.contains_eq_mem, hlabel, hstep]

/-- A known label that stands nowhere else is no fault. -/
theorem labelError?_insert {name : String} (hknown : name ∈ known) (hseen : name ∉ seen)
    (hfresh : name ∉ (front ++ back).map Prod.fst) (value : V) :
    labelError? known seen (front ++ (name, value) :: back) =
      labelError? known seen (front ++ back) := by
  induction front generalizing seen with
  | nil =>
    rw [List.nil_append, labelError?_cons_of_pass hknown hseen]
    refine labelError?_congr fun label hlabel => ?_
    have hne : label ≠ name := fun heq => hfresh (heq ▸ hlabel)
    simp [hne]
  | cons entry front ih =>
    obtain ⟨label, own⟩ := entry
    rw [List.cons_append, List.map_cons, List.mem_cons, not_or] at hfresh
    have hstep : labelError? known (label :: seen) (front ++ (name, value) :: back) =
        labelError? known (label :: seen) (front ++ back) :=
      ih (by simp [hseen, hfresh.1]) hfresh.2
    simp only [List.cons_append, labelError?, hstep]

theorem lookup?_insert {name : String} (hfresh : name ∉ front.map Prod.fst) (value : V)
    (label : String) :
    Table.lookup? label (front ++ (name, value) :: back) =
      if label = name then some value else Table.lookup? label (front ++ back) := by
  induction front with
  | nil => rfl
  | cons entry front ih =>
    obtain ⟨own, ownValue⟩ := entry
    rw [List.map_cons, List.mem_cons, not_or] at hfresh
    rw [List.cons_append, List.cons_append, Table.lookup?, Table.lookup?, ih hfresh.2]
    by_cases hlabel : label = name
    · subst hlabel
      simp [hfresh.1]
    · simp [hlabel]

end Labels

/-- What a value for one parameter changes.  Without it and with it binding fails with the same
error, or both times succeeds with the same bindings around the `index`-th, which is the default
without the value. -/
inductive Supplies (index : Nat) (literal : Literal)
    (without : Except DecodeError (List (Binding V)))
    (given : V → Except DecodeError (List (Binding V))) : Prop
  | error {e : DecodeError} (hwithout : without = .error e)
      (hgiven : ∀ value, given value = .error e)
  | ok (bindings bindings' : List (Binding V)) (hlength : bindings.length = index)
      (hwithout : without = .ok (bindings ++ .default literal :: bindings'))
      (hgiven : ∀ value, given value = .ok (bindings ++ .given value :: bindings'))

/-- One more binding before the others. -/
theorem Supplies.cons {index : Nat} {literal : Literal}
    {without : Except DecodeError (List (Binding V))}
    {given : V → Except DecodeError (List (Binding V))} (h : Supplies index literal without given)
    (binding : Binding V) :
    Supplies (index + 1) literal (without.map (binding :: ·))
      fun value => (given value).map (binding :: ·) := by
  cases h with
  | error hwithout hgiven =>
    exact .error (by rw [hwithout]; rfl) fun value => by rw [hgiven]; rfl
  | ok bindings bindings' hlength hwithout hgiven =>
    exact .ok (binding :: bindings) bindings' (by simp [hlength]) (by rw [hwithout]; rfl)
      fun value => by rw [hgiven]; rfl

section Binding

variable {before after : List Param} {param : Param} {name : String} {literal : Literal}

/-- The parameters before the one that is supplied do not look for its label, and those behind it
find the label taken. -/
theorem fillParams_supplies {labeled : List (String × V)} {given : V → List (String × V)}
    {taken : List String} (hlabel : param.label = some name)
    (hdefault : param.default = some literal) (hfirst : name ∉ paramLabels before)
    (htaken : name ∉ taken)
    (hwithout : Table.lookup? name labeled = none)
    (hgiven : ∀ value label, Table.lookup? label (given value) =
      if label = name then some value else Table.lookup? label labeled) (positional : List V) :
    Supplies before.length literal (fillParams labeled taken (before ++ param :: after) positional)
      fun value => fillParams (given value) taken (before ++ param :: after) positional := by
  induction before generalizing taken positional with
  | nil =>
    have hown : bindParam labeled taken param positional = .ok (.default literal) := by
      simp [bindParam, bindDefault, hlabel, hdefault, hwithout]
    have hown' (value : V) :
        bindParam (given value) taken param positional = .ok (.given value) := by
      simp [bindParam, hlabel, htaken, hgiven]
    have hrest (value : V) :
        fillParams (given value) (takenAfter taken param) after (positionalAfter param positional) =
          fillParams labeled (takenAfter taken param) after (positionalAfter param positional) := by
      refine fillParams_congr (fun label hfree => ?_) _ _
      have hne : label ≠ name := fun heq => hfree (by simp [takenAfter, hlabel, heq])
      rw [hgiven, if_neg hne]
    simp only [List.nil_append, fillParams_cons, hown, hown', hrest]
    cases hbindings :
        fillParams labeled (takenAfter taken param) after (positionalAfter param positional) with
    | error e => exact .error rfl fun value => rfl
    | ok bindings => exact .ok [] bindings rfl rfl fun value => rfl
  | cons earlier before ih =>
    have hother : earlier.label ≠ some name := fun heq => hfirst (by simp [paramLabels, heq])
    have hsame (value : V) : bindParam (given value) taken earlier positional =
        bindParam labeled taken earlier positional := by
      unfold bindParam
      cases hearlier : earlier.label with
      | none => rfl
      | some label =>
        have hne : label ≠ name := fun heq => hother (by rw [hearlier, heq])
        simp only [hgiven, if_neg hne]
    have hfirst' : name ∉ paramLabels before := fun hmem => hfirst <| by
      obtain ⟨later, hlater, heq⟩ := List.mem_filterMap.mp hmem
      exact List.mem_filterMap.mpr ⟨later, List.mem_cons_of_mem earlier hlater, heq⟩
    have htaken' : name ∉ takenAfter taken earlier := by
      unfold takenAfter
      cases hearlier : earlier.label with
      | none => exact htaken
      | some label =>
        have hne : name ≠ label := fun heq => hother (by rw [hearlier, heq])
        simp [hne, htaken]
    simp only [List.cons_append, fillParams_cons, hsame]
    cases bindParam labeled taken earlier positional with
    | error e => exact .error rfl fun value => rfl
    | ok binding => exact (ih hfirst' htaken' _).cons binding

/-- **One more labeled argument changes the binding of its parameter only.** -/
theorem bindArguments_insert {front back : List (Argument V)} (hlabel : param.label = some name)
    (hdefault : param.default = some literal) (hfirst : name ∉ paramLabels before)
    (hleft : ∀ a ∈ front ++ back, a.label ≠ some name) :
    Supplies before.length literal (bindArguments (before ++ param :: after) (front ++ back))
      fun value =>
        bindArguments (before ++ param :: after) (front ++ ⟨some name, value⟩ :: back) := by
  have hlabeled : labeledArguments (front ++ back) =
      labeledArguments front ++ labeledArguments back := by
    simp only [labeledArguments_eq, List.filterMap_append]
  have hlabeled' (value : V) : labeledArguments (front ++ ⟨some name, value⟩ :: back) =
      labeledArguments front ++ (name, value) :: labeledArguments back := by
    simp [labeledArguments_eq]
  have hpositional (value : V) : positionalArguments (front ++ ⟨some name, value⟩ :: back) =
      positionalArguments (front ++ back) := by
    simp [positionalArguments_eq, Argument.isLabeled]
  have hfresh : name ∉ (labeledArguments front ++ labeledArguments back).map Prod.fst := by
    rw [← hlabeled, labeledArguments_eq]
    simp only [List.mem_map, List.mem_filterMap, not_exists, not_and]
    rintro ⟨label, value⟩ ⟨a, ha, hentry⟩ rfl
    obtain ⟨own, hown, heq⟩ := Option.map_eq_some_iff.mp hentry
    cases heq
    exact hleft a ha hown
  have hknown : name ∈ paramLabels (before ++ param :: after) := by
    simp [paramLabels, hlabel]
  have hlabels (value : V) := labelError?_insert hknown List.not_mem_nil hfresh value
  simp only [bindArguments, hpositional, hlabeled, hlabeled', hlabels]
  cases labelError? (paramLabels (before ++ param :: after)) []
      (labeledArguments front ++ labeledArguments back) with
  | some e => exact .error rfl fun value => rfl
  | none =>
    simp only
    split
    · exact .error rfl fun value => rfl
    · have hfront : name ∉ (labeledArguments front).map Prod.fst := fun hmem =>
        hfresh (by rw [List.map_append]; exact List.mem_append_left _ hmem)
      refine fillParams_supplies hlabel hdefault hfirst List.not_mem_nil ?_
        (fun value label => lookup?_insert hfront value label) _
      exact Option.eq_none_iff_forall_ne_some.mpr fun value hlookup =>
        hfresh (List.mem_map_of_mem (mem_of_lookup? hlookup))

end Binding

/-! ## One parameter among others -/

/-- A default and the literal itself have the same value under the parameter's rule. -/
theorem decodeDefault_eq_ok_iff {registry : Registry} {rule : Rule} {label : String}
    {literal : Literal} {value : Value} :
    decodeDefault registry rule label literal = .ok value ↔
      decodeLiteral registry rule label literal = .ok value := by
  refine ⟨decodeDefault_ok, fun h => ?_⟩
  rw [decodeDefault, h]

/-- So it does not matter whether a parameter is left to its default or given it. -/
theorem decodeParam_default_iff {d : Decoder} {param : Param} {literal : Literal}
    {child : Resolvable} :
    decodeParam d.registry param (Binding.map d.decodeTerm (.default literal)) = .ok child ↔
      decodeParam d.registry param (Binding.map d.decodeTerm (.given (.literal literal))) =
        .ok child := by
  simp only [Binding.map, decodeParam, Decoder.decodeTerm_literal, map_eq_ok_iff,
    decodeDefault_eq_ok_iff]

theorem decodeParams_append {registry : Registry} {before after : List Param} {param : Param}
    {readings readings' : List (Binding Reading)} {reading : Binding Reading}
    (hlength : readings.length = before.length) {children : List Resolvable} :
    decodeParams registry (before ++ param :: after) (readings ++ reading :: readings') =
        .ok children ↔
      ∃ front child back, decodeParams registry before readings = .ok front ∧
        decodeParam registry param reading = .ok child ∧
        decodeParams registry after readings' = .ok back ∧ children = front ++ child :: back := by
  induction before generalizing readings children with
  | nil =>
    obtain rfl : readings = [] := List.length_eq_zero_iff.mp hlength
    simp only [List.nil_append, decodeParams]
    cases decodeParam registry param reading with
    | error e => simp
    | ok child => simp [map_eq_ok_iff, eq_comm (b := children)]
  | cons earlier before ih =>
    obtain _ | ⟨first, readings⟩ := readings
    · cases hlength
    have hlength' : readings.length = before.length := by simpa using hlength
    simp only [List.cons_append, decodeParams]
    cases decodeParam registry earlier first with
    | error e => simp
    | ok child =>
      simp only [map_eq_ok_iff, ih hlength']
      constructor
      · rintro ⟨_, ⟨front, own, back, hfront, hown, hback, rfl⟩, rfl⟩
        exact ⟨child :: front, own, back, ⟨front, hfront, rfl⟩, hown, hback, rfl⟩
      · rintro ⟨_, own, back, ⟨front, hfront, rfl⟩, hown, hback, rfl⟩
        exact ⟨_, ⟨front, own, back, hfront, hown, hback, rfl⟩, rfl⟩

/-- Without a binding there is no tree. -/
theorem decodeShape_ne_ok {d : Decoder} {shape : Shape} {arguments : List (Argument Term)}
    {e : DecodeError} (h : bindArguments shape.params arguments = .error e) (label : String)
    (r : Resolvable) : d.decodeShape label shape (d.readings arguments) ≠ .ok r := by
  intro hok
  rw [Decoder.decodeShape, decodeChildren, d.readings_eq, bindArguments_map, h] at hok
  cases hok

/-- A shape on arguments whose binding is known around one of its parameters. -/
theorem decodeShape_eq_ok_iff {d : Decoder} {label : String} {shape : Shape}
    {before after : List Param} {param : Param} (hparams : shape.params = before ++ param :: after)
    {arguments : List (Argument Term)} {bindings bindings' : List (Binding Term)}
    {binding : Binding Term} (hlength : bindings.length = before.length)
    (hbindings : bindArguments shape.params arguments = .ok (bindings ++ binding :: bindings'))
    {r : Resolvable} :
    d.decodeShape label shape (d.readings arguments) = .ok r ↔
      ∃ front child back,
        decodeParams d.registry before (bindings.map (Binding.map d.decodeTerm)) = .ok front ∧
        decodeParam d.registry param (binding.map d.decodeTerm) = .ok child ∧
        decodeParams d.registry after (bindings'.map (Binding.map d.decodeTerm)) = .ok back ∧
        r = finishShape d.folds label shape (front ++ child :: back) := by
  have hreadings : bindArguments shape.params (d.readings arguments) =
      .ok ((bindings ++ binding :: bindings').map (Binding.map d.decodeTerm)) := by
    rw [d.readings_eq, bindArguments_map, hbindings]
    rfl
  have hlength' : (bindings.map (Binding.map d.decodeTerm)).length = before.length := by
    rw [List.length_map, hlength]
  rw [Decoder.decodeShape, decodeChildren, hreadings, map_eq_ok_iff]
  simp only [hparams, List.map_append, List.map_cons, decodeParams_append hlength']
  constructor
  · rintro ⟨_, ⟨front, child, back, hfront, hchild, hback, rfl⟩, rfl⟩
    exact ⟨front, child, back, hfront, hchild, hback, rfl⟩
  · rintro ⟨front, child, back, hfront, hchild, hback, rfl⟩
    exact ⟨_, ⟨front, child, back, hfront, hchild, hback, rfl⟩, rfl⟩

/-! ## Attributes without a value -/

/-- The attribute is absent, or the decoder of the binding rejects it. -/
def AttributeBinding.LacksValue (binding : AttributeBinding) (context : Context) : Prop :=
  context.attribute? binding.name = none ∨
    ∃ literal reason, context.attribute? binding.name = some literal ∧
      binding.decoder.decodeAttribute literal = .error reason

theorem AttributeBinding.resolve_of_lacksValue {binding : AttributeBinding} {context : Context}
    {value : Value} (h : binding.LacksValue context) (hdefault : binding.default = some value) :
    binding.resolve context = .ok value := by
  unfold resolve decode
  rcases h with habsent | ⟨literal, reason, hpresent, hreject⟩
  · simp only [habsent, hdefault]
  · simp only [hpresent, hreject, hdefault]

/-- A reference is bound to what the parameter is without it. -/
theorem decodeParam_reference {d : Decoder} {param : Param} {literal : Literal}
    (hdefault : param.default = some literal) {name : String} {annotations : Annotations}
    {child : Resolvable}
    (h : decodeParam d.registry param
      (Binding.map d.decodeTerm (.given (.reference name annotations))) = .ok child) :
    ∃ binding value, child = .bound binding ∧ binding.name = name ∧
      attributeLeaf? d.registry param.rule = some binding.decoder ∧
      binding.default = some value ∧
      decodeParam d.registry param (Binding.map d.decodeTerm (.default literal)) =
        .ok (.constant value) := by
  simp only [Binding.map, decodeParam, Decoder.decodeTerm_reference, hdefault] at h
  obtain ⟨leaf, value?, hleaf, hvalue?, rfl⟩ := bindAttribute_ok h
  obtain ⟨value, rfl, hvalue⟩ := Option.map_eq_some_iff.mp hvalue?.symm
  refine ⟨_, value, rfl, rfl, hleaf, rfl, ?_⟩
  simp only [Binding.map, decodeParam, ← hvalue, Except.map]

/-- A shape with a bound child is deferred. -/
theorem finishShape_bound (folds : Bool) (label : String) (shape : Shape)
    (front back : List Resolvable) (binding : AttributeBinding) :
    finishShape folds label shape (front ++ .bound binding :: back) =
      deferShape label shape (front ++ .bound binding :: back) := by
  rcases finishShape_eq folds label shape (front ++ .bound binding :: back) with
    ⟨-, value, hfolded, -⟩ | ⟨-, heq⟩
  · obtain ⟨-, -, values, hvalues, -⟩ := folded?_eq_some_iff.mp hfolded
    have hmem : Resolvable.bound binding ∈ values.map Resolvable.constant := by
      simp [← hvalues]
    obtain ⟨value', -, heq⟩ := List.mem_map.mp hmem
    cases heq
  · exact heq

/-- A settled shape has the same result with an attribute that lacks a value as with the default in
its place. -/
theorem agree_bound_lacksValue {shape : Shape} (hsettled : shape.Settled)
    {binding : AttributeBinding} {value : Value} {context : Context}
    (hlacks : binding.LacksValue context) (hdefault : binding.default = some value) (folds : Bool)
    (label : String) (front back : List Resolvable) :
    Agree context (finishShape folds label shape (front ++ .constant value :: back))
      (finishShape folds label shape (front ++ .bound binding :: back)) := by
  have hsame (rs : List Resolvable) : List.Forall₂ (Agree context) rs rs :=
    List.forall₂_same.mpr fun _ _ => rfl
  have hchild : Agree context (.constant value) (.bound binding) :=
    (binding.resolve_of_lacksValue hlacks hdefault).symm
  exact agree_finishShape hsettled _ _ _ (List.rel_append (hsame front) (.cons hchild (hsame back)))

/-! ## The three spellings -/

/-- **The spellings of a default agree.**  A shape decodes arguments that leave a parameter out if
and only if it decodes them with the parameter's default added anywhere, and to the same tree.  If
it decodes them with a reference added, it decodes them as they are; the tree with the reference has
a bound attribute in the parameter's place, and in contexts where that attribute lacks a value both
trees have the same result. -/
theorem default_spellings (d : Decoder) {shape : Shape} {before after : List Param} {param : Param}
    {name : String} {literal : Literal} (hparams : shape.params = before ++ param :: after)
    (hlabel : param.label = some name) (hfirst : name ∉ paramLabels before)
    (hdefault : param.default = some literal) {front back : List (Argument Term)}
    (hleft : ∀ a ∈ front ++ back, a.label ≠ some name) (label : String) :
    (∀ r, d.decodeShape label shape (d.readings (front ++ back)) = .ok r ↔
      d.decodeShape label shape
        (d.readings (front ++ ⟨some name, .literal literal⟩ :: back)) = .ok r) ∧
    ∀ attributeName annotations r',
      d.decodeShape label shape
        (d.readings (front ++ ⟨some name, .reference attributeName annotations⟩ :: back)) = .ok r' →
      ∃ r, d.decodeShape label shape (d.readings (front ++ back)) = .ok r ∧
        ∃ binding children children', binding.name = attributeName ∧
          attributeLeaf? d.registry param.rule = some binding.decoder ∧
          children.length = before.length ∧
          r' = deferShape label shape (children ++ .bound binding :: children') ∧
          (shape.Settled → ∀ context, binding.LacksValue context →
            r.resolve context = r'.resolve context) := by
  have hsupplies : Supplies before.length literal (bindArguments shape.params (front ++ back))
      fun value => bindArguments shape.params (front ++ ⟨some name, value⟩ :: back) := by
    rw [hparams]
    exact bindArguments_insert hlabel hdefault hfirst hleft
  cases hsupplies with
  | error hwithout hgiven =>
    refine ⟨fun r => ?_, fun attributeName annotations r' h =>
      absurd h (decodeShape_ne_ok (hgiven _) label r')⟩
    simp only [decodeShape_ne_ok hwithout, decodeShape_ne_ok (hgiven (.literal literal))]
  | ok bindings bindings' hlength hwithout hgiven =>
    refine ⟨fun r => ?_, fun attributeName annotations r' h => ?_⟩
    · rw [decodeShape_eq_ok_iff hparams hlength hwithout,
        decodeShape_eq_ok_iff hparams hlength (hgiven (.literal literal))]
      simp only [decodeParam_default_iff]
    · obtain ⟨children, child, children', hchildren, hchild, hchildren', rfl⟩ :=
        (decodeShape_eq_ok_iff hparams hlength (hgiven _)).mp h
      obtain ⟨binding, value, rfl, hname, hleaf, hvalue, hown⟩ :=
        decodeParam_reference hdefault hchild
      refine ⟨_, (decodeShape_eq_ok_iff hparams hlength hwithout).mpr
        ⟨children, _, children', hchildren, hown, hchildren', rfl⟩, binding, children, children',
        hname, hleaf, ?_, finishShape_bound _ _ _ _ _ _, fun hsettled context hlacks => ?_⟩
      · exact (decodeParams_ok (by rw [List.length_map, hlength]) hchildren).length_eq.symm
      · exact agree_bound_lacksValue hsettled hlacks hvalue _ _ _ _

/-- The opacity of a color by components: left out, given as `1.0` in front of `blue`, and bound to
an attribute that is a word. -/
theorem default_spellings_opacity :
    let d := (Registry.empty .ios).decoder
    let opacity := (Param.labeled "opacity" (.leaf .float)).withDefault (.float 1.0)
    let components : List Param := [.labeled "red" (.leaf .float),
      .labeled "green" (.leaf .float), .labeled "blue" (.leaf .float)]
    let shape := Shape.initializer (components ++ [opacity]) Vocabulary.colorOfComponents
    let front : List (Argument Term) :=
      [⟨some "red", .literal (.float 0.5)⟩, ⟨some "green", .literal (.int 0)⟩]
    let back : List (Argument Term) := [⟨some "blue", .literal (.int 1)⟩]
    let context : Context := ⟨fun _ => some (.string "dim"), .standard⟩
    (∀ r, d.decodeShape "Color" shape (d.readings (front ++ back)) = .ok r ↔
      d.decodeShape "Color" shape
        (d.readings (front ++ ⟨some "opacity", .literal (.float 1.0)⟩ :: back)) = .ok r) ∧
    ∃ r r', d.decodeShape "Color" shape (d.readings (front ++ back)) = .ok r ∧
      d.decodeShape "Color" shape
        (d.readings (front ++ ⟨some "opacity", .reference "o" .empty⟩ :: back)) = .ok r' ∧
      r.resolve context = r'.resolve context := by
  intro d opacity components shape front back context
  have hparams : shape.params = components ++ opacity :: [] := rfl
  have hlabel : opacity.label = some "opacity" := rfl
  have hfirst : "opacity" ∉ paramLabels components := by decide
  have hdefault : opacity.default = some (.float 1.0) := rfl
  have hleft : ∀ a ∈ front ++ back, a.label ≠ some "opacity" := by simp [front, back]
  have hall := default_spellings d hparams hlabel hfirst hdefault hleft "Color"
  have hok : (d.decodeShape "Color" shape (d.readings
      (front ++ ⟨some "opacity", .reference "o" .empty⟩ :: back))).isOk = true := by decide +kernel
  obtain ⟨r', hr'⟩ := exists_ok_of_isOk hok
  obtain ⟨r, hr, binding, children, children', -, hleaf, -, -, hagree⟩ := hall.2 "o" .empty r' hr'
  have hsettled : shape.Settled :=
    Vocabulary.color_ignoresEnvironment.settled shape (.tail _ (.head _))
  have hdecoder : binding.decoder = .float := (Option.some.inj hleaf).symm
  have hlacks : binding.LacksValue context := by
    refine .inr ⟨.string "dim", Leaf.mismatch "Double" (.string "dim"), rfl, ?_⟩
    rw [hdecoder]
    rfl
  exact ⟨hall.1, r, r', hr, hr', hagree hsettled context hlacks⟩

end DeferredStyle
