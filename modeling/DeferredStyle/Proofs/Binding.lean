import DeferredStyle.Decoder.Binding
import DeferredStyle.Proofs.Results
import Mathlib.Data.List.Basic

/-!
# What binding does with the carried values

Binding looks at the labels of arguments and hands on what they carry.  So it commutes with any
function of the carried values, every parameter gets a binding, and what is bound was passed.

* `bindArguments_map` — binding commutes with functions of the carried values.
* `length_bindArguments`, `mem_of_bindArguments` — one binding per parameter, each value from an
  argument.
-/

set_option autoImplicit false

namespace DeferredStyle

universe u v

variable {V : Type u} {W : Type v}

/-- Apply `f` to what a parameter is bound to. -/
def Binding.map (f : V → W) : Binding V → Binding W
  | .given value => .given (f value)
  | .default literal => .default literal

/-! ## One parameter at a time -/

/-- The binding of one parameter, given the labels taken before it and the positional arguments that
are left. -/
def bindParam (labeled : List (String × V)) (taken : List String) (param : Param)
    (positional : List V) : Except DecodeError (Binding V) :=
  match param.label with
  | none =>
    match positional with
    | value :: _ => .ok (.given value)
    | [] => bindDefault param
  | some label =>
    match if taken.contains label then none else Table.lookup? label labeled with
    | some value => .ok (.given value)
    | none => bindDefault param

/-- The labels taken once a parameter has its binding. -/
def takenAfter (taken : List String) (param : Param) : List String :=
  match param.label with
  | none => taken
  | some label => label :: taken

/-- The positional arguments left once a parameter has its binding. -/
def positionalAfter (param : Param) (positional : List V) : List V :=
  match param.label with
  | none => positional.tail
  | some _ => positional

theorem mem_takenAfter_of_mem {taken : List String} {param : Param} {label : String}
    (h : label ∈ taken) : label ∈ takenAfter taken param := by
  unfold takenAfter
  split
  · exact h
  · exact List.mem_cons_of_mem _ h

theorem fillParams_cons (labeled : List (String × V)) (taken : List String) (param : Param)
    (params : List Param) (positional : List V) :
    fillParams labeled taken (param :: params) positional =
      match bindParam labeled taken param positional with
      | .error e => .error e
      | .ok binding =>
        (fillParams labeled (takenAfter taken param) params (positionalAfter param positional)).map
          (binding :: ·) := by
  unfold bindParam takenAfter positionalAfter
  cases hlabel : param.label with
  | none =>
    cases positional with
    | nil =>
      rw [fillParams]
      · cases bindDefault (V := V) param <;> rfl
      · exact hlabel
    | cons value positional =>
      rw [fillParams]
      · rfl
      · exact hlabel
  | some label =>
    simp only [fillParams, hlabel]
    cases (if taken.contains label then none else Table.lookup? label labeled) <;> rfl

/-! ## Functions of the carried values -/

theorem labeledArguments_eq (arguments : List (Argument V)) :
    labeledArguments arguments =
      arguments.filterMap fun a => a.label.map fun label => (label, a.value) := by
  induction arguments with
  | nil => rfl
  | cons a arguments ih =>
    obtain ⟨label, value⟩ := a
    cases label <;> simp [labeledArguments, ih]

theorem positionalArguments_eq (arguments : List (Argument V)) :
    positionalArguments arguments = (arguments.filter (!·.isLabeled)).map Argument.value := by
  induction arguments with
  | nil => rfl
  | cons a arguments ih =>
    obtain ⟨label, value⟩ := a
    cases label <;> simp [positionalArguments, Argument.isLabeled, ih]

theorem labeledArguments_map (f : V → W) (arguments : List (Argument V)) :
    labeledArguments (arguments.map (Argument.map f)) =
      (labeledArguments arguments).map fun entry => (entry.1, f entry.2) := by
  rw [labeledArguments_eq, labeledArguments_eq, List.filterMap_map, List.map_filterMap]
  refine List.filterMap_congr fun a _ => ?_
  simp only [Function.comp_apply, Argument.map, Option.map_map]
  rfl

theorem positionalArguments_map (f : V → W) (arguments : List (Argument V)) :
    positionalArguments (arguments.map (Argument.map f)) =
      (positionalArguments arguments).map f := by
  rw [positionalArguments_eq, positionalArguments_eq, List.filter_map, List.map_map, List.map_map]
  rfl

theorem labelError?_map (f : V → W) (known seen : List String) (labeled : List (String × V)) :
    labelError? known seen (labeled.map fun entry => (entry.1, f entry.2)) =
      labelError? known seen labeled := by
  induction labeled generalizing seen with
  | nil => rfl
  | cons entry labeled ih => simp [labelError?, ih]

theorem lookup?_map (f : V → W) (label : String) (labeled : List (String × V)) :
    Table.lookup? label (labeled.map fun entry => (entry.1, f entry.2)) =
      (Table.lookup? label labeled).map f := by
  induction labeled with
  | nil => rfl
  | cons entry labeled ih =>
    simp only [List.map_cons, Table.lookup?, ih]
    split <;> rfl

theorem bindDefault_map (f : V → W) (param : Param) :
    bindDefault param = (bindDefault param).map (Binding.map f) := by
  unfold bindDefault
  split <;> rfl

theorem bindParam_map (f : V → W) (labeled : List (String × V)) (taken : List String)
    (param : Param) (positional : List V) :
    bindParam (labeled.map fun entry => (entry.1, f entry.2)) taken param (positional.map f) =
      (bindParam labeled taken param positional).map (Binding.map f) := by
  unfold bindParam
  cases param.label with
  | none => cases positional with
    | nil => exact bindDefault_map f param
    | cons value positional => rfl
  | some label =>
    by_cases htaken : taken.contains label = true
    · simp only [htaken, if_true]
      exact bindDefault_map f param
    · simp only [htaken, lookup?_map]
      cases Table.lookup? label labeled with
      | none => exact bindDefault_map f param
      | some value => rfl

theorem positionalAfter_map (f : V → W) (param : Param) (positional : List V) :
    positionalAfter param (positional.map f) = (positionalAfter param positional).map f := by
  unfold positionalAfter
  split <;> simp

theorem fillParams_map (f : V → W) (labeled : List (String × V)) (taken : List String)
    (params : List Param) (positional : List V) :
    fillParams (labeled.map fun entry => (entry.1, f entry.2)) taken params (positional.map f) =
      (fillParams labeled taken params positional).map (List.map (Binding.map f)) := by
  induction params generalizing taken positional with
  | nil => rfl
  | cons param params ih =>
    rw [fillParams_cons, fillParams_cons, bindParam_map, positionalAfter_map, ih]
    cases bindParam labeled taken param positional with
    | error e => rfl
    | ok binding =>
      cases fillParams labeled (takenAfter taken param) params
        (positionalAfter param positional) <;> rfl

/-- **Binding commutes with functions of the carried values.** -/
theorem bindArguments_map (f : V → W) (params : List Param) (arguments : List (Argument V)) :
    bindArguments params (arguments.map (Argument.map f)) =
      (bindArguments params arguments).map (List.map (Binding.map f)) := by
  simp only [bindArguments, labeledArguments_map, positionalArguments_map, labelError?_map,
    List.length_map, fillParams_map]
  cases labelError? (paramLabels params) [] (labeledArguments arguments) with
  | some e => rfl
  | none =>
    simp only
    split <;> rfl

/-! ## Where bindings come from -/

theorem mem_of_lookup? {label : String} {value : V} {labeled : List (String × V)}
    (h : Table.lookup? label labeled = some value) : (label, value) ∈ labeled := by
  induction labeled with
  | nil => cases h
  | cons entry labeled ih =>
    rw [Table.lookup?] at h
    split at h
    · rename_i heq
      cases h
      exact heq ▸ List.mem_cons_self
    · exact List.mem_cons_of_mem entry (ih h)

/-- Where no label comes twice, a look-up finds every entry. -/
theorem lookup?_eq_some_iff_mem {labeled : List (String × V)}
    (hnodup : (labeled.map Prod.fst).Nodup) {label : String} {value : V} :
    Table.lookup? label labeled = some value ↔ (label, value) ∈ labeled := by
  refine ⟨mem_of_lookup?, fun hmem => ?_⟩
  induction labeled with
  | nil => cases hmem
  | cons entry labeled ih =>
    obtain ⟨hnew, hrest⟩ := List.nodup_cons.mp hnodup
    rw [Table.lookup?]
    rcases List.mem_cons.mp hmem with rfl | hmem
    · rw [if_pos rfl]
    · have hne : label ≠ entry.1 := fun heq => hnew (heq ▸ List.mem_map_of_mem hmem)
      rw [if_neg hne]
      exact ih hrest hmem

theorem bindDefault_ne_given (param : Param) (value : V) :
    bindDefault param ≠ .ok (.given value) := by
  unfold bindDefault
  split <;> simp

theorem mem_of_bindParam {labeled : List (String × V)} {taken : List String} {param : Param}
    {positional : List V} {value : V}
    (h : bindParam labeled taken param positional = .ok (.given value)) :
    value ∈ positional ∨ ∃ label, (label, value) ∈ labeled := by
  unfold bindParam at h
  split at h
  · split at h
    · cases h
      exact .inl List.mem_cons_self
    · exact absurd h (bindDefault_ne_given param value)
  · split at h
    · rename_i label _ _ value' hlookup
      cases h
      split at hlookup
      · cases hlookup
      · exact .inr ⟨label, mem_of_lookup? hlookup⟩
    · exact absurd h (bindDefault_ne_given param value)

/-- The parts of a successful binding. -/
theorem fillParams_cons_ok {labeled : List (String × V)} {taken : List String} {param : Param}
    {params : List Param} {positional : List V} {bindings : List (Binding V)}
    (h : fillParams labeled taken (param :: params) positional = .ok bindings) :
    ∃ binding rest, bindings = binding :: rest ∧
      bindParam labeled taken param positional = .ok binding ∧
      fillParams labeled (takenAfter taken param) params (positionalAfter param positional) =
        .ok rest := by
  rw [fillParams_cons] at h
  split at h
  · cases h
  · rename_i binding hbinding
    obtain ⟨rest, hrest, rfl⟩ := map_eq_ok_iff.mp h
    exact ⟨binding, rest, rfl, hbinding, hrest⟩

theorem length_fillParams {labeled : List (String × V)} {taken : List String}
    {params : List Param} {positional : List V} {bindings : List (Binding V)}
    (h : fillParams labeled taken params positional = .ok bindings) :
    bindings.length = params.length := by
  induction params generalizing taken positional bindings with
  | nil =>
    cases h
    rfl
  | cons param params ih =>
    obtain ⟨binding, rest, rfl, -, hrest⟩ := fillParams_cons_ok h
    rw [List.length_cons, List.length_cons, ih hrest]

theorem mem_of_positionalAfter {param : Param} {positional : List V} {value : V}
    (h : value ∈ positionalAfter param positional) : value ∈ positional := by
  unfold positionalAfter at h
  split at h
  · exact List.mem_of_mem_tail h
  · exact h

theorem mem_of_fillParams {labeled : List (String × V)} {taken : List String}
    {params : List Param} {positional : List V} {bindings : List (Binding V)} {value : V}
    (h : fillParams labeled taken params positional = .ok bindings)
    (hmem : .given value ∈ bindings) :
    value ∈ positional ∨ ∃ label, (label, value) ∈ labeled := by
  induction params generalizing taken positional bindings with
  | nil =>
    cases h
    cases hmem
  | cons param params ih =>
    obtain ⟨binding, rest, rfl, hbinding, hrest⟩ := fillParams_cons_ok h
    rcases List.mem_cons.mp hmem with rfl | hmem
    · exact mem_of_bindParam hbinding
    · exact (ih hrest hmem).imp_left mem_of_positionalAfter

theorem exists_of_mem_labeledArguments {arguments : List (Argument V)} {label : String} {value : V}
    (h : (label, value) ∈ labeledArguments arguments) : ∃ a ∈ arguments, a.value = value := by
  rw [labeledArguments_eq] at h
  obtain ⟨a, ha, hentry⟩ := List.mem_filterMap.mp h
  obtain ⟨l, -, heq⟩ := Option.map_eq_some_iff.mp hentry
  cases heq
  exact ⟨a, ha, rfl⟩

theorem exists_of_mem_positionalArguments {arguments : List (Argument V)} {value : V}
    (h : value ∈ positionalArguments arguments) : ∃ a ∈ arguments, a.value = value := by
  rw [positionalArguments_eq] at h
  obtain ⟨a, ha, rfl⟩ := List.mem_map.mp h
  exact ⟨a, (List.mem_filter.mp ha).1, rfl⟩

/-- A successful binding fills the parameters from the arguments. -/
theorem bindArguments_ok {params : List Param} {arguments : List (Argument V)}
    {bindings : List (Binding V)} (h : bindArguments params arguments = .ok bindings) :
    fillParams (labeledArguments arguments) [] params (positionalArguments arguments) =
      .ok bindings := by
  simp only [bindArguments] at h
  split at h
  · cases h
  · split at h
    · cases h
    · exact h

theorem length_bindArguments {params : List Param} {arguments : List (Argument V)}
    {bindings : List (Binding V)} (h : bindArguments params arguments = .ok bindings) :
    bindings.length = params.length :=
  length_fillParams (bindArguments_ok h)

/-- What a parameter is bound to was passed as an argument. -/
theorem mem_of_bindArguments {params : List Param} {arguments : List (Argument V)}
    {bindings : List (Binding V)} {value : V} (h : bindArguments params arguments = .ok bindings)
    (hmem : .given value ∈ bindings) : ∃ a ∈ arguments, a.value = value := by
  rcases mem_of_fillParams (bindArguments_ok h) hmem with hpos | ⟨label, hlabeled⟩
  · exact exists_of_mem_positionalArguments hpos
  · exact exists_of_mem_labeledArguments hlabeled

end DeferredStyle
