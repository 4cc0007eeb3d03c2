import DeferredStyle.Proofs.Places
import DeferredStyle.Proofs.Reordering

/-!
# Binding is an exact matcher

Binding succeeds if every argument has a parameter to itself and every other parameter has a
default; it then returns exactly this matching.  Otherwise it fails with the first fault, where
faults of labels come before the number of positional arguments, and that before parameters without
a value.

* `Bindable`, `Matching`, `FirstFault` — when arguments can be bound, to what, and what is wrong if
  they cannot.
* `valueFor?` — what the loop over the parameters finds for one of them; `fillParams_eq_ok_iff` and
  `fillParams_eq_error_iff` — what it returns in all.
* `valueFor?_eq_some_iff` — what it finds is carried by the argument that goes to the parameter.
* `bindArguments_matches` — binding computes exactly this.
-/

set_option autoImplicit false

namespace DeferredStyle

universe u

variable {V : Type u}

/-! ## The matching -/

/-- A label is unknown, or it came before. -/
inductive LabelFault (known seen : List String) (label : String) : DecodeError → Prop
  | unknown (h : label ∉ known) : LabelFault known seen label (.unknownArgument label)
  | duplicate (hknown : label ∈ known) (h : label ∈ seen) :
      LabelFault known seen label (.duplicateArgument label)

section Statement

variable (params : List Param) (arguments : List (Argument V))

/-- No parameter before the place `i` is left without a value. -/
def FilledBefore (i : Nat) : Prop :=
  ∀ i' param, i' < i → params[i']? = some param → (∃ j, GoesTo params arguments i' j) ∨
    param.default.isSome = true

/-- Every argument has a parameter, and every parameter a value. -/
structure Bindable : Prop where
  labels : LabelsPass params arguments
  few : unlabeledCount arguments ≤ openPlaces params
  filled : FilledBefore params arguments params.length

/-- One binding per parameter, in order: every argument is what one parameter is bound to, and every
parameter that no argument goes to is bound to its default. -/
structure Matching (bindings : List (Binding V)) : Prop where
  length : bindings.length = params.length
  once : ∀ j < arguments.length, ∃! i, GoesTo params arguments i j
  alone : ∀ i j j', GoesTo params arguments i j → GoesTo params arguments i j' → j = j'
  given : ∀ i j a, GoesTo params arguments i j → arguments[j]? = some a →
    bindings[i]? = some (.given a.value)
  default : ∀ i param, params[i]? = some param → (¬ ∃ j, GoesTo params arguments i j) →
    ∃ literal, param.default = some literal ∧ bindings[i]? = some (.default literal)

/-- What is wrong with arguments that cannot be bound. -/
inductive FirstFault : DecodeError → Prop
  /-- Behind labels that pass stands one that is unknown or came before. -/
  | label {front back : List (Argument V)} {a : Argument V} {label : String} {e : DecodeError}
      (harguments : arguments = front ++ a :: back) (hlabel : a.label = some label)
      (hfront : LabelsPass params front)
      (hfault : LabelFault (params.filterMap Param.label) (front.filterMap Argument.label)
        label e) : FirstFault e
  /-- All labels pass, and more arguments than parameters have none. -/
  | tooMany (hlabels : LabelsPass params arguments)
      (hmany : openPlaces params < unlabeledCount arguments) :
      FirstFault (.tooManyArguments (openPlaces params) (unlabeledCount arguments))
  /-- All arguments have a parameter, and the parameter at the place `i` is the first without a
  value. -/
  | missing {i : Nat} {param : Param} (hlabels : LabelsPass params arguments)
      (hfew : unlabeledCount arguments ≤ openPlaces params) (hparam : params[i]? = some param)
      (hbefore : FilledBefore params arguments i) (hopen : ¬ ∃ j, GoesTo params arguments i j)
      (hdefault : param.default = none) : FirstFault (.missingArgument param.displayLabel)

end Statement

/-! ## One parameter -/

/-- The value that arguments hold for a parameter behind others. -/
def valueFor? (labeled : List (String × V)) (positional : List V) (before : List Param)
    (param : Param) : Option V :=
  match param.label with
  | none => positional[positionalCount before]?
  | some label => if label ∈ paramLabels before then none else Table.lookup? label labeled

/-- The binding of a parameter to a value, or to its default. -/
def bindValue (param : Param) : Option V → Except DecodeError (Binding V)
  | some value => .ok (.given value)
  | none => bindDefault param

section Loop

variable {labeled : List (String × V)} {positional : List V} {before : List Param}
  {taken : List String}

theorem bindParam_eq (htaken : ∀ label, label ∈ taken ↔ label ∈ paramLabels before)
    (param : Param) :
    bindParam labeled taken param (positional.drop (positionalCount before)) =
      bindValue param (valueFor? labeled positional before param) := by
  unfold bindParam valueFor?
  cases param.label with
  | none =>
    rw [← List.head?_drop]
    cases positional.drop (positionalCount before) <;> rfl
  | some label =>
    simp only [List.contains_eq_mem, decide_eq_true_eq, htaken]
    cases (if label ∈ paramLabels before then none else Table.lookup? label labeled) <;> rfl

theorem mem_takenAfter (htaken : ∀ label, label ∈ taken ↔ label ∈ paramLabels before)
    (param : Param) (label : String) :
    label ∈ takenAfter taken param ↔ label ∈ paramLabels (before ++ [param]) := by
  unfold takenAfter paramLabels
  rw [List.filterMap_append, List.mem_append, ← paramLabels, ← htaken]
  cases hlabel : param.label with
  | none => simp [hlabel]
  | some own => simp [hlabel, or_comm]

theorem positionalAfter_drop (positional : List V) (before : List Param) (param : Param) :
    positionalAfter param (positional.drop (positionalCount before)) =
      positional.drop (positionalCount (before ++ [param])) := by
  unfold positionalAfter positionalCount
  cases hlabel : param.label with
  | none => simp [hlabel, Nat.add_comm]
  | some own => simp [hlabel]

theorem fillParams_step (htaken : ∀ label, label ∈ taken ↔ label ∈ paramLabels before)
    (param : Param) (params : List Param) :
    fillParams labeled taken (param :: params) (positional.drop (positionalCount before)) =
      match bindValue param (valueFor? labeled positional before param) with
      | .error e => .error e
      | .ok binding =>
        (fillParams labeled (takenAfter taken param) params
          (positional.drop (positionalCount (before ++ [param])))).map (binding :: ·) := by
  have hstep := fillParams_cons labeled taken param params
    (positional.drop (positionalCount before))
  rw [bindParam_eq htaken, positionalAfter_drop] at hstep
  refine hstep.trans ?_
  cases bindValue param (valueFor? labeled positional before param) <;> rfl

theorem bindValue_eq_ok_iff {param : Param} {value? : Option V} {binding : Binding V} :
    bindValue param value? = .ok binding ↔
      (∃ value, value? = some value ∧ binding = .given value) ∨
        value? = none ∧ ∃ literal, param.default = some literal ∧ binding = .default literal := by
  cases value? with
  | some value => simp [bindValue, eq_comm]
  | none => cases hdefault : param.default <;> simp [bindValue, bindDefault, hdefault, eq_comm]

theorem bindValue_eq_error_iff {param : Param} {value? : Option V} {e : DecodeError} :
    bindValue param value? = .error e ↔
      value? = none ∧ param.default = none ∧ e = .missingArgument param.displayLabel := by
  cases value? with
  | some value => simp [bindValue]
  | none => cases hdefault : param.default <;> simp [bindValue, bindDefault, hdefault, eq_comm]

/-- **What the loop returns**: for each parameter the binding to what the arguments hold for it. -/
theorem fillParams_eq_ok_iff (htaken : ∀ label, label ∈ taken ↔ label ∈ paramLabels before)
    {params : List Param} {bindings : List (Binding V)} :
    fillParams labeled taken params (positional.drop (positionalCount before)) = .ok bindings ↔
      bindings.length = params.length ∧ ∀ i param, params[i]? = some param →
        ∃ binding, bindings[i]? = some binding ∧
          bindValue param (valueFor? labeled positional (before ++ params.take i) param) =
            .ok binding := by
  induction params generalizing before taken bindings with
  | nil => simp [fillParams, eq_comm]
  | cons param params ih =>
    have htaken' := mem_takenAfter htaken param
    rw [fillParams_step htaken]
    constructor
    · intro h
      cases hhead : bindValue param (valueFor? labeled positional before param) with
      | error e => simp [hhead] at h
      | ok binding =>
        rw [hhead] at h
        obtain ⟨rest, hok, rfl⟩ := map_eq_ok_iff.mp h
        obtain ⟨hlength, hvalues⟩ := (ih htaken').mp hok
        refine ⟨by rw [List.length_cons, List.length_cons, hlength], fun i later hlater => ?_⟩
        cases i with
        | zero =>
          cases hlater
          exact ⟨binding, rfl, by simpa using hhead⟩
        | succ i => simpa [List.append_assoc] using hvalues i later hlater
    · rintro ⟨hlength, hvalues⟩
      obtain ⟨binding, hbinding, hhead⟩ := hvalues 0 param rfl
      cases bindings with
      | nil => simp at hbinding
      | cons first rest =>
        cases hbinding
        rw [List.take_zero, List.append_nil] at hhead
        have hok := (ih htaken').mpr ⟨Nat.succ.inj hlength, fun i later hlater => by
          simpa [List.append_assoc] using hvalues (i + 1) later hlater⟩
        rw [hhead, hok]
        rfl

/-- **How the loop fails**: with the first parameter that has no binding. -/
theorem fillParams_eq_error_iff (htaken : ∀ label, label ∈ taken ↔ label ∈ paramLabels before)
    {params : List Param} {e : DecodeError} :
    fillParams labeled taken params (positional.drop (positionalCount before)) = .error e ↔
      ∃ i param, params[i]? = some param ∧
        (∀ i' earlier, i' < i → params[i']? = some earlier → ∃ binding,
          bindValue earlier (valueFor? labeled positional (before ++ params.take i') earlier) =
            .ok binding) ∧
        bindValue param (valueFor? labeled positional (before ++ params.take i) param) =
          .error e := by
  induction params generalizing before taken with
  | nil => simp [fillParams]
  | cons param params ih =>
    have hrest := ih (mem_takenAfter htaken param)
    rw [fillParams_step htaken]
    cases hhead : bindValue param (valueFor? labeled positional before param) with
    | error e' =>
      constructor
      · intro h
        refine ⟨0, param, rfl, fun i' earlier hlt => ?_, by simpa [hhead] using h⟩
        exact absurd hlt (Nat.not_lt_zero i')
      · rintro ⟨i, later, hlater, hbefore, herror⟩
        cases i with
        | zero =>
          cases hlater
          simpa [hhead] using herror
        | succ i =>
          obtain ⟨binding, hbinding⟩ := hbefore 0 param (Nat.succ_pos i) rfl
          simp [hhead] at hbinding
    | ok binding =>
      simp only [map_eq_error_iff, hrest]
      constructor
      · rintro ⟨i, later, hlater, hbefore, herror⟩
        refine ⟨i + 1, later, hlater, fun i' earlier hlt hearlier => ?_, by simpa using herror⟩
        cases i' with
        | zero =>
          cases hearlier
          exact ⟨binding, by simpa using hhead⟩
        | succ i' => simpa using hbefore i' earlier (Nat.lt_of_succ_lt_succ hlt) hearlier
      · rintro ⟨i, later, hlater, hbefore, herror⟩
        cases i with
        | zero =>
          cases hlater
          simp [hhead] at herror
        | succ i =>
          refine ⟨i, later, hlater, fun i' earlier hlt hearlier => ?_, by simpa using herror⟩
          simpa using hbefore (i' + 1) earlier (Nat.succ_lt_succ hlt) hearlier

end Loop

/-! ## What arguments hold -/

section Arguments

variable {params : List Param} {arguments : List (Argument V)}

theorem positionalCount_eq (params : List Param) : positionalCount params = openPlaces params := by
  rw [positionalCount, openPlaces, ← List.countP_eq_length_filter, List.count, List.countP_map]
  refine List.countP_congr fun param _ => ?_
  cases hlabel : param.label <;> simp [hlabel]

theorem length_positionalArguments (arguments : List (Argument V)) :
    (positionalArguments arguments).length = unlabeledCount arguments := by
  rw [positionalArguments_eq, List.length_map, unlabeledCount, ← List.countP_eq_length_filter,
    List.count, List.countP_map]
  refine List.countP_congr fun a _ => ?_
  cases hlabel : a.label <;> simp [Argument.isLabeled, hlabel]

theorem map_fst_labeledArguments (arguments : List (Argument V)) :
    (labeledArguments arguments).map Prod.fst = arguments.filterMap Argument.label := by
  rw [labeledArguments_eq, List.map_filterMap]
  refine List.filterMap_congr fun a _ => ?_
  cases a.label <;> rfl

theorem mem_labeledArguments_iff {label : String} {value : V} :
    (label, value) ∈ labeledArguments arguments ↔
      ∃ (j : Nat) (a : Argument V), arguments[j]? = some a ∧ a.label = some label ∧
        a.value = value := by
  rw [labeledArguments_eq, List.mem_filterMap]
  constructor
  · rintro ⟨a, ha, hentry⟩
    obtain ⟨own, hlabel, heq⟩ := Option.map_eq_some_iff.mp hentry
    cases heq
    obtain ⟨j, hj⟩ := List.mem_iff_getElem?.mp ha
    exact ⟨j, a, hj, hlabel, rfl⟩
  · rintro ⟨j, a, hj, hlabel, rfl⟩
    exact ⟨a, List.mem_of_getElem? hj, by rw [hlabel]; rfl⟩

/-- The `k`-th positional value is carried by the `k`-th argument without a label. -/
theorem getElem?_positionalArguments_iff {k : Nat} {value : V} :
    (positionalArguments arguments)[k]? = some value ↔
      ∃ j a, arguments[j]? = some a ∧ Occurs (arguments.map Argument.label) none k j ∧
        a.value = value := by
  induction arguments generalizing k with
  | nil => simp [positionalArguments]
  | cons a arguments ih =>
    obtain ⟨label, own⟩ := a
    rw [List.map_cons]
    cases label with
    | some label =>
      rw [positionalArguments, ih]
      constructor
      · rintro ⟨j, a, hj, hoccurs, hvalue⟩
        exact ⟨j + 1, a, hj, Occurs.cons_succ.mpr ⟨k, by simp, hoccurs⟩, hvalue⟩
      · rintro ⟨_ | j, a, hj, hoccurs, hvalue⟩
        · cases (Occurs.cons_zero.mp hoccurs).1
        · obtain ⟨k', rfl, hoccurs'⟩ := Occurs.cons_succ.mp hoccurs
          exact ⟨j, a, hj, by simpa using hoccurs', hvalue⟩
    | none =>
      rw [positionalArguments]
      constructor
      · intro h
        cases k with
        | zero => exact ⟨0, ⟨none, own⟩, rfl, Occurs.cons_zero.mpr ⟨rfl, rfl⟩, by simpa using h⟩
        | succ k =>
          obtain ⟨j, a, hj, hoccurs, hvalue⟩ := ih.mp (by simpa using h)
          exact ⟨j + 1, a, hj, Occurs.cons_succ.mpr ⟨k, by simp, hoccurs⟩, hvalue⟩
      · rintro ⟨_ | j, a, hj, hoccurs, hvalue⟩
        · obtain ⟨-, rfl⟩ := Occurs.cons_zero.mp hoccurs
          cases hj
          simpa using hvalue
        · obtain ⟨k', rfl, hoccurs'⟩ := Occurs.cons_succ.mp hoccurs
          simpa using ih.mpr ⟨j, a, hj, hoccurs', hvalue⟩

/-- What a parameter takes is carried by the argument that goes to it. -/
theorem valueFor?_eq_some_iff (hdistinct : (arguments.filterMap Argument.label).Nodup) {i : Nat}
    {param : Param} (hparam : params[i]? = some param) {value : V} :
    valueFor? (labeledArguments arguments) (positionalArguments arguments) (params.take i) param =
        some value ↔
      ∃ j a, GoesTo params arguments i j ∧ arguments[j]? = some a ∧ a.value = value := by
  have hplace : (params.map Param.label)[i]? = some param.label := by simp [hparam]
  unfold valueFor?
  cases hlabel : param.label with
  | none =>
    rw [hlabel] at hplace
    have hoccurs : Occurs (params.map Param.label) none (positionalCount (params.take i)) i := by
      refine ⟨hplace, ?_⟩
      rw [positionalCount_eq, openPlaces, List.map_take]
    simp only [getElem?_positionalArguments_iff]
    constructor
    · rintro ⟨j, a, hj, hargument, hvalue⟩
      exact ⟨j, a, .positional hoccurs hargument, hj, hvalue⟩
    · rintro ⟨j, a, hgoes, hj, hvalue⟩
      cases hgoes with
      | labeled hoccurs' _ =>
        rw [hoccurs'.1] at hplace
        cases hplace
      | positional hoccurs' hargument =>
        refine ⟨j, a, hj, ?_, hvalue⟩
        rwa [← hoccurs.2, hoccurs'.2]
  | some label =>
    rw [hlabel] at hplace
    have hfirst : label ∈ paramLabels (params.take i) ↔
        ¬ Occurs (params.map Param.label) (some label) 0 i := by
      rw [Occurs, ← List.map_take, List.count_eq_zero]
      simp only [paramLabels, List.mem_filterMap, hplace, List.mem_map, true_and, not_not]
    have hkeys : ((labeledArguments arguments).map Prod.fst).Nodup := by
      rwa [map_fst_labeledArguments]
    simp only [Option.ite_none_left_eq_some, hfirst, not_not, lookup?_eq_some_iff_mem hkeys,
      mem_labeledArguments_iff]
    constructor
    · rintro ⟨hoccurs, j, a, hj, hargument, hvalue⟩
      exact ⟨j, a, .labeled hoccurs (by simp [hj, hargument]), hj, hvalue⟩
    · rintro ⟨j, a, hgoes, hj, hvalue⟩
      cases hgoes with
      | labeled hoccurs hargument =>
        have hsame := hoccurs.1.symm.trans hplace
        cases hsame
        refine ⟨hoccurs, j, a, hj, ?_, hvalue⟩
        simpa [hj] using hargument
      | positional hoccurs _ =>
        have hsame := hoccurs.1.symm.trans hplace
        cases hsame

theorem valueFor?_eq_none_iff (hdistinct : (arguments.filterMap Argument.label).Nodup) {i : Nat}
    {param : Param} (hparam : params[i]? = some param) :
    valueFor? (labeledArguments arguments) (positionalArguments arguments) (params.take i) param =
        none ↔
      ¬ ∃ j, GoesTo params arguments i j := by
  rw [Option.eq_none_iff_forall_ne_some]
  constructor
  · rintro h ⟨j, hgoes⟩
    obtain ⟨a, ha⟩ := hgoes.exists_argument
    exact h a.value ((valueFor?_eq_some_iff hdistinct hparam).mpr ⟨j, a, hgoes, ha, rfl⟩)
  · rintro h value hvalue
    obtain ⟨j, a, hgoes, -⟩ := (valueFor?_eq_some_iff hdistinct hparam).mp hvalue
    exact h ⟨j, hgoes⟩

end Arguments

/-! ## Labels -/

section Labels

variable {known seen : List String} {labeled front back : List (String × V)} {e : DecodeError}

/-- Labels that pass are remembered. -/
theorem labelError?_append (h : labelError? known seen front = none) :
    labelError? known seen (front ++ back) =
      labelError? known ((front.map Prod.fst).reverse ++ seen) back := by
  induction front generalizing seen with
  | nil => rfl
  | cons entry front ih =>
    obtain ⟨label, value⟩ := entry
    obtain ⟨-, hlabels⟩ := labelError?_eq_none_iff.mp h
    obtain ⟨hknown, hseen⟩ := hlabels label (by simp)
    rw [labelError?_cons_of_pass hknown hseen] at h
    rw [List.cons_append, labelError?_cons_of_pass hknown hseen, ih h]
    simp

theorem labelError?_cons_of_fault {label : String} {value : V}
    (h : LabelFault known seen label e) :
    labelError? known seen ((label, value) :: labeled) = some e := by
  cases h with
  | unknown h => simp [labelError?, h]
  | duplicate hknown h => simp [labelError?, hknown, h]

/-- How labels fail: behind labels that pass stands one that is unknown or came before. -/
theorem labelError?_eq_some_iff :
    labelError? known seen labeled = some e ↔
      ∃ front label value back, labeled = front ++ (label, value) :: back ∧
        labelError? known seen front = none ∧
        LabelFault known ((front.map Prod.fst).reverse ++ seen) label e := by
  constructor
  · intro h
    induction labeled generalizing seen with
    | nil => cases h
    | cons entry labeled ih =>
      obtain ⟨label, value⟩ := entry
      by_cases hknown : label ∈ known
      · by_cases hseen : label ∈ seen
        · have hfault : LabelFault known seen label (.duplicateArgument label) :=
            .duplicate hknown hseen
          rw [labelError?_cons_of_fault hfault] at h
          cases h
          exact ⟨[], label, value, labeled, rfl, rfl, hfault⟩
        · rw [labelError?_cons_of_pass hknown hseen] at h
          obtain ⟨front, later, value', back, rfl, hfront, hfault⟩ := ih h
          refine ⟨(label, value) :: front, later, value', back, rfl, ?_, by simpa using hfault⟩
          rwa [labelError?_cons_of_pass hknown hseen]
      · have hfault : LabelFault known seen label (.unknownArgument label) := .unknown hknown
        rw [labelError?_cons_of_fault hfault] at h
        cases h
        exact ⟨[], label, value, labeled, rfl, rfl, hfault⟩
  · rintro ⟨front, label, value, back, rfl, hfront, hfault⟩
    rw [labelError?_append hfront, labelError?_cons_of_fault hfault]

variable {params : List Param} {arguments : List (Argument V)}

theorem labelsPass_iff :
    LabelsPass params arguments ↔
      labelError? (paramLabels params) [] (labeledArguments arguments) = none := by
  rw [labelError?_eq_none_iff, map_fst_labeledArguments]
  constructor
  · rintro ⟨hknown, hdistinct⟩
    exact ⟨hdistinct, fun label hlabel => ⟨hknown label hlabel, List.not_mem_nil⟩⟩
  · rintro ⟨hdistinct, hknown⟩
    exact ⟨fun label hlabel => (hknown label hlabel).1, hdistinct⟩

/-- A labeled argument stands at a place of the arguments. -/
theorem labeledArguments_eq_append_cons_iff {label : String} {value : V} :
    labeledArguments arguments = front ++ (label, value) :: back ↔
      ∃ front' back', arguments = front' ++ ⟨some label, value⟩ :: back' ∧
        labeledArguments front' = front ∧ labeledArguments back' = back := by
  simp only [labeledArguments_eq]
  constructor
  · intro h
    obtain ⟨first, rest, rfl, hfirst, hrest⟩ := List.filterMap_eq_append_iff.mp h
    obtain ⟨skipped, a, last, rfl, hskipped, ha, hlast⟩ := List.filterMap_eq_cons_iff.mp hrest
    obtain ⟨own, hlabel, heq⟩ := Option.map_eq_some_iff.mp ha
    cases heq
    obtain ⟨ownLabel, ownValue⟩ := a
    cases hlabel
    refine ⟨first ++ skipped, last, by simp, ?_, hlast⟩
    rw [List.filterMap_append, hfirst, List.filterMap_eq_nil_iff.mpr hskipped, List.append_nil]
  · rintro ⟨front', back', rfl, rfl, rfl⟩
    simp

theorem LabelFault.congr {seen' : List String} {label : String}
    (hseen : ∀ label, label ∈ seen ↔ label ∈ seen') (h : LabelFault known seen label e) :
    LabelFault known seen' label e := by
  cases h with
  | unknown h => exact .unknown h
  | duplicate hknown h => exact .duplicate hknown ((hseen label).mp h)

/-- The first fault of labels, in the order of the arguments. -/
theorem labelError?_labeledArguments_iff :
    labelError? (paramLabels params) [] (labeledArguments arguments) = some e ↔
      ∃ front a back label, arguments = front ++ a :: back ∧ a.label = some label ∧
        LabelsPass params front ∧
        LabelFault (params.filterMap Param.label) (front.filterMap Argument.label) label e := by
  have hseen : ∀ (front : List (Argument V)) (label : String),
      label ∈ ((labeledArguments front).map Prod.fst).reverse ++ [] ↔
        label ∈ front.filterMap Argument.label := by
    intro front label
    rw [List.append_nil, List.mem_reverse, map_fst_labeledArguments]
  rw [labelError?_eq_some_iff]
  constructor
  · rintro ⟨front, label, value, back, hsplit, hfront, hfault⟩
    obtain ⟨front', back', rfl, rfl, -⟩ := labeledArguments_eq_append_cons_iff.mp hsplit
    exact ⟨front', _, back', label, rfl, rfl, labelsPass_iff.mpr hfront,
      hfault.congr (hseen front')⟩
  · rintro ⟨front, a, back, label, rfl, hlabel, hfront, hfault⟩
    obtain ⟨own, value⟩ := a
    cases hlabel
    refine ⟨labeledArguments front, label, value, labeledArguments back, ?_,
      labelsPass_iff.mp hfront, hfault.congr fun l => (hseen front l).symm⟩
    exact labeledArguments_eq_append_cons_iff.mpr ⟨front, back, rfl, rfl, rfl⟩

end Labels

/-! ## Binding -/

section Binding

variable {params : List Param} {arguments : List (Argument V)} {bindings : List (Binding V)}
  {e : DecodeError}

theorem bindArguments_of_labelError
    (h : labelError? (paramLabels params) [] (labeledArguments arguments) = some e) :
    bindArguments params arguments = .error e := by
  simp only [bindArguments, h]

theorem bindArguments_of_many (hlabels : LabelsPass params arguments)
    (hmany : openPlaces params < unlabeledCount arguments) :
    bindArguments params arguments =
      .error (.tooManyArguments (openPlaces params) (unlabeledCount arguments)) := by
  simp only [bindArguments, labelsPass_iff.mp hlabels, positionalCount_eq,
    length_positionalArguments, if_pos hmany]

theorem bindArguments_of_few (hlabels : LabelsPass params arguments)
    (hfew : unlabeledCount arguments ≤ openPlaces params) :
    bindArguments params arguments =
      fillParams (labeledArguments arguments) [] params
        ((positionalArguments arguments).drop (positionalCount [])) := by
  simp only [bindArguments, labelsPass_iff.mp hlabels, positionalCount_eq,
    length_positionalArguments, if_neg (Nat.not_lt.mpr hfew)]
  rfl

/-- The binding of a parameter that an argument goes to, or that none goes to. -/
theorem bindValue_valueFor?_eq_ok_iff (hlabels : LabelsPass params arguments) {i : Nat}
    {param : Param} (hparam : params[i]? = some param) {binding : Binding V} :
    bindValue param (valueFor? (labeledArguments arguments) (positionalArguments arguments)
        ([] ++ params.take i) param) = .ok binding ↔
      (∃ j a, GoesTo params arguments i j ∧ arguments[j]? = some a ∧ binding = .given a.value) ∨
        (¬ ∃ j, GoesTo params arguments i j) ∧
          ∃ literal, param.default = some literal ∧ binding = .default literal := by
  rw [List.nil_append, bindValue_eq_ok_iff, valueFor?_eq_none_iff hlabels.distinct hparam]
  simp only [valueFor?_eq_some_iff hlabels.distinct hparam]
  refine or_congr_left ⟨?_, ?_⟩
  · rintro ⟨value, ⟨j, a, hgoes, ha, rfl⟩, rfl⟩
    exact ⟨j, a, hgoes, ha, rfl⟩
  · rintro ⟨j, a, hgoes, ha, rfl⟩
    exact ⟨a.value, ⟨j, a, hgoes, ha, rfl⟩, rfl⟩

/-- A parameter has a binding if an argument goes to it or it has a default. -/
theorem exists_bindValue_iff (hlabels : LabelsPass params arguments) {i : Nat} {param : Param}
    (hparam : params[i]? = some param) :
    (∃ binding, bindValue param (valueFor? (labeledArguments arguments)
        (positionalArguments arguments) ([] ++ params.take i) param) = .ok binding) ↔
      (∃ j, GoesTo params arguments i j) ∨ param.default.isSome = true := by
  simp only [bindValue_valueFor?_eq_ok_iff hlabels hparam]
  constructor
  · rintro ⟨binding, ⟨j, a, hgoes, -⟩ | ⟨-, literal, hdefault, -⟩⟩
    · exact .inl ⟨j, hgoes⟩
    · exact .inr (by rw [hdefault]; rfl)
  · intro h
    by_cases hgoes : ∃ j, GoesTo params arguments i j
    · obtain ⟨j, hgoes⟩ := hgoes
      obtain ⟨a, ha⟩ := hgoes.exists_argument
      exact ⟨.given a.value, .inl ⟨j, a, hgoes, ha, rfl⟩⟩
    · obtain ⟨literal, hdefault⟩ := Option.isSome_iff_exists.mp (h.resolve_left hgoes)
      exact ⟨.default literal, .inr ⟨hgoes, literal, hdefault, rfl⟩⟩

/-- Once labels and counts pass, binding fails with the first parameter without a value. -/
theorem bindArguments_eq_error_iff_of_few (hlabels : LabelsPass params arguments)
    (hfew : unlabeledCount arguments ≤ openPlaces params) :
    bindArguments params arguments = .error e ↔
      ∃ i param, params[i]? = some param ∧ FilledBefore params arguments i ∧
        (¬ ∃ j, GoesTo params arguments i j) ∧ param.default = none ∧
          e = .missingArgument param.displayLabel := by
  rw [bindArguments_of_few hlabels hfew, fillParams_eq_error_iff (by simp [paramLabels])]
  refine exists_congr fun i => exists_congr fun param => and_congr_right fun hparam => ?_
  rw [List.nil_append, bindValue_eq_error_iff, valueFor?_eq_none_iff hlabels.distinct hparam]
  refine and_congr_left fun _ => ?_
  constructor
  · intro h i' earlier hlt hearlier
    exact (exists_bindValue_iff hlabels hearlier).mp (h i' earlier hlt hearlier)
  · intro h i' earlier hlt hearlier
    exact (exists_bindValue_iff hlabels hearlier).mpr (h i' earlier hlt hearlier)

/-- **Binding fails with the first fault.** -/
theorem bindArguments_eq_error_iff :
    bindArguments params arguments = .error e ↔ FirstFault params arguments e := by
  have hlabel : labelError? (paramLabels params) [] (labeledArguments arguments) = some e →
      FirstFault params arguments e := by
    intro h
    obtain ⟨front, a, back, label, harguments, hlabel, hfront, hfault⟩ :=
      labelError?_labeledArguments_iff.mp h
    exact .label harguments hlabel hfront hfault
  constructor
  · intro h
    cases herror : labelError? (paramLabels params) [] (labeledArguments arguments) with
    | some e' =>
      rw [bindArguments_of_labelError herror] at h
      cases h
      exact hlabel herror
    | none =>
      have hlabels := labelsPass_iff.mpr herror
      by_cases hmany : openPlaces params < unlabeledCount arguments
      · rw [bindArguments_of_many hlabels hmany] at h
        cases h
        exact .tooMany hlabels hmany
      · have hfew := Nat.not_lt.mp hmany
        obtain ⟨i, param, hparam, hbefore, hopen, hdefault, rfl⟩ :=
          (bindArguments_eq_error_iff_of_few hlabels hfew).mp h
        exact .missing hlabels hfew hparam hbefore hopen hdefault
  · intro h
    cases h with
    | label harguments hlabel hfront hfault =>
      exact bindArguments_of_labelError
        (labelError?_labeledArguments_iff.mpr ⟨_, _, _, _, harguments, hlabel, hfront, hfault⟩)
    | tooMany hlabels hmany => exact bindArguments_of_many hlabels hmany
    | missing hlabels hfew hparam hbefore hopen hdefault =>
      exact (bindArguments_eq_error_iff_of_few hlabels hfew).mpr
        ⟨_, _, hparam, hbefore, hopen, hdefault, rfl⟩

/-- Arguments that can be bound have no fault. -/
theorem Bindable.exists_bindings (h : Bindable params arguments) :
    ∃ bindings, bindArguments params arguments = .ok bindings := by
  cases hresult : bindArguments params arguments with
  | ok bindings => exact ⟨bindings, rfl⟩
  | error e =>
    obtain ⟨i, param, hparam, -, hopen, hdefault, -⟩ :=
      (bindArguments_eq_error_iff_of_few h.labels h.few).mp hresult
    have hlt : i < params.length := (List.getElem?_eq_some_iff.mp hparam).1
    rcases h.filled i param hlt hparam with hgoes | hsome
    · exact absurd hgoes hopen
    · rw [hdefault] at hsome
      cases hsome

theorem bindable_of_bindArguments (h : bindArguments params arguments = .ok bindings) :
    LabelsPass params arguments ∧ unlabeledCount arguments ≤ openPlaces params := by
  cases herror : labelError? (paramLabels params) [] (labeledArguments arguments) with
  | some e =>
    rw [bindArguments_of_labelError herror] at h
    cases h
  | none =>
    have hlabels := labelsPass_iff.mpr herror
    refine ⟨hlabels, Nat.not_lt.mp fun hmany => ?_⟩
    rw [bindArguments_of_many hlabels hmany] at h
    cases h

/-- **What binding returns is the matching.** -/
theorem matching_of_bindArguments (h : bindArguments params arguments = .ok bindings) :
    Matching params arguments bindings := by
  obtain ⟨hlabels, hfew⟩ := bindable_of_bindArguments h
  rw [bindArguments_of_few hlabels hfew, fillParams_eq_ok_iff (by simp [paramLabels])] at h
  obtain ⟨hlength, hvalues⟩ := h
  refine ⟨hlength, fun j hj => ?_, fun i j j' hgoes hgoes' => ?_, fun i j a hgoes ha => ?_,
    fun i param hparam hopen => ?_⟩
  · obtain ⟨i, hgoes⟩ := exists_goesTo hlabels hfew hj
    exact ⟨i, hgoes, fun i' hgoes' => hgoes'.parameter_unique hgoes⟩
  · exact hgoes.argument_unique hlabels.distinct hgoes'
  · obtain ⟨param, hparam⟩ := hgoes.exists_parameter
    obtain ⟨binding, hbinding, hvalue⟩ := hvalues i param hparam
    rcases (bindValue_valueFor?_eq_ok_iff hlabels hparam).mp hvalue with
      ⟨j', a', hgoes', ha', rfl⟩ | ⟨hopen, -⟩
    · cases hgoes.argument_unique hlabels.distinct hgoes'
      cases ha.symm.trans ha'
      exact hbinding
    · exact absurd ⟨j, hgoes⟩ hopen
  · obtain ⟨binding, hbinding, hvalue⟩ := hvalues i param hparam
    rcases (bindValue_valueFor?_eq_ok_iff hlabels hparam).mp hvalue with
      ⟨j, a, hgoes, -⟩ | ⟨-, literal, hdefault, rfl⟩
    · exact absurd ⟨j, hgoes⟩ hopen
    · exact ⟨literal, hdefault, hbinding⟩

/-- A matching leaves nothing out. -/
theorem Matching.bindable (h : Matching params arguments bindings) :
    Bindable params arguments := by
  refine ⟨⟨fun label hlabel => ?_, ?_⟩, ?_, fun i param _ hparam => ?_⟩
  · obtain ⟨a, ha, hown⟩ := List.mem_filterMap.mp hlabel
    obtain ⟨j, hj, rfl⟩ := List.getElem_of_mem ha
    obtain ⟨i, hgoes, -⟩ := h.once j hj
    have hplace : (arguments.map Argument.label)[j]? = some (some label) := by simp [hj, hown]
    cases hgoes with
    | labeled hparam hargument =>
      cases hargument.symm.trans hplace
      simpa using List.mem_of_getElem? hparam.1
    | positional _ hargument => cases hargument.1.symm.trans hplace
  · rw [filterMap_label_eq, nodup_labels_iff]
    intro label j j' hj hj'
    obtain ⟨hlt, -⟩ := List.getElem?_eq_some_iff.mp hj
    obtain ⟨i, hgoes, -⟩ := h.once j (by simpa using hlt)
    cases hgoes with
    | labeled hparam hargument =>
      cases hargument.symm.trans hj
      exact h.alone i j j' (.labeled hparam hj) (.labeled hparam hj')
    | positional _ hargument => cases hargument.1.symm.trans hj
  · refine Nat.not_lt.mp fun hmany => ?_
    obtain ⟨j, hj⟩ := Occurs.exists_iff.mpr hmany
    obtain ⟨hlt, -⟩ := List.getElem?_eq_some_iff.mp hj.1
    obtain ⟨i, hgoes, -⟩ := h.once j (by simpa using hlt)
    cases hgoes with
    | labeled _ hargument => cases hargument.symm.trans hj.1
    | positional hparam hargument =>
      rw [← hargument.2, hj.2] at hparam
      exact Nat.lt_irrefl _ (Occurs.exists_iff.mp ⟨i, hparam⟩)
  · by_cases hgoes : ∃ j, GoesTo params arguments i j
    · exact .inl hgoes
    · obtain ⟨literal, hdefault, -⟩ := h.default i param hparam hgoes
      exact .inr (by rw [hdefault]; rfl)

/-- There is one matching. -/
theorem Matching.unique {bindings' : List (Binding V)} (h : Matching params arguments bindings)
    (h' : Matching params arguments bindings') : bindings = bindings' := by
  refine List.ext_getElem? fun i => ?_
  cases hparam : params[i]? with
  | none =>
    have hlength := List.getElem?_eq_none_iff.mp hparam
    rw [List.getElem?_eq_none (h.length ▸ hlength), List.getElem?_eq_none (h'.length ▸ hlength)]
  | some param =>
    by_cases hgoes : ∃ j, GoesTo params arguments i j
    · obtain ⟨j, hgoes⟩ := hgoes
      obtain ⟨a, ha⟩ := hgoes.exists_argument
      rw [h.given i j a hgoes ha, h'.given i j a hgoes ha]
    · obtain ⟨literal, hdefault, hbinding⟩ := h.default i param hparam hgoes
      obtain ⟨literal', hdefault', hbinding'⟩ := h'.default i param hparam hgoes
      cases hdefault.symm.trans hdefault'
      rw [hbinding, hbinding']

end Binding

/-- **Binding is an exact matcher.**  It succeeds exactly if every label is known and comes once,
there are parameters enough for the arguments without a label, and every parameter that no argument
goes to has a default.  It then returns the one matching of arguments and parameters, and otherwise
it fails with the first fault. -/
theorem bindArguments_matches (params : List Param) (arguments : List (Argument V)) :
    ((∃ bindings, bindArguments params arguments = .ok bindings) ↔ Bindable params arguments) ∧
    (∀ bindings, bindArguments params arguments = .ok bindings ↔
      Matching params arguments bindings) ∧
    ∀ e, bindArguments params arguments = .error e ↔ FirstFault params arguments e := by
  refine ⟨⟨?_, Bindable.exists_bindings⟩, fun bindings => ⟨matching_of_bindArguments, ?_⟩, ?_⟩
  · rintro ⟨bindings, h⟩
    exact (matching_of_bindArguments h).bindable
  · intro h
    obtain ⟨bindings', hbindings'⟩ := h.bindable.exists_bindings
    rw [hbindings', h.unique (matching_of_bindArguments hbindings')]
  · exact fun e => bindArguments_eq_error_iff

/-- The second parameter with a label takes no argument, and so its default. -/
example :
    let rule : Rule := .type "Length"
    let params : List Param :=
      [.labeled "width" rule, .positional rule, (Param.labeled "width" rule).withDefault .nil]
    bindArguments params [⟨none, 1⟩, ⟨some "width", 2⟩] =
      .ok [.given 2, .given 1, .default .nil] := rfl

end DeferredStyle
