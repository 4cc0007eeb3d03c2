import DeferredStyle.Proofs.Binding

/-!
# Which argument goes to which parameter

Labels alone decide where an argument goes: a labeled argument goes to the first parameter with its
label, and the `k`-th argument without a label to the `k`-th parameter without one.

* `Occurs` — where the `k`-th member of a kind stands in a list.
* `Goes`, `GoesTo` — the argument at a place goes to the parameter at a place.
* `GoesTo.parameter_unique`, `GoesTo.argument_unique` — no argument goes to two parameters, and no
  two arguments go to one.
* `exists_goesTo` — an argument goes somewhere if its label is known and there are places enough.
-/

set_option autoImplicit false

namespace DeferredStyle

universe u

variable {V : Type u}

/-! ## Occurrences -/

/-- The `k`-th member that equals `kind`, counted from zero, stands at the place `i`. -/
def Occurs (labels : List (Option String)) (kind : Option String) (k i : Nat) : Prop :=
  labels[i]? = some kind ∧ (labels.take i).count kind = k

namespace Occurs

variable {labels : List (Option String)} {label kind : Option String} {k i j : Nat}

theorem not_nil : ¬ Occurs [] kind k i := by
  rintro ⟨hmember, -⟩
  simp at hmember

theorem cons_zero : Occurs (label :: labels) kind k 0 ↔ label = kind ∧ k = 0 := by
  simp [Occurs, eq_comm]

theorem cons_succ :
    Occurs (label :: labels) kind k (i + 1) ↔
      ∃ k', k = k' + (if label = kind then 1 else 0) ∧ Occurs labels kind k' i := by
  simp only [Occurs, List.getElem?_cons_succ, List.take_succ_cons, List.count_cons, beq_iff_eq]
  constructor
  · rintro ⟨hmember, hcount⟩
    exact ⟨_, hcount.symm, hmember, rfl⟩
  · rintro ⟨k', rfl, hmember, rfl⟩
    exact ⟨hmember, rfl⟩

/-- The `k`-th member of a kind stands at one place. -/
theorem unique (hi : Occurs labels kind k i) (hj : Occurs labels kind k j) : i = j := by
  induction labels generalizing k i j with
  | nil => exact absurd hi not_nil
  | cons label labels ih =>
    cases i with
    | zero =>
      cases j with
      | zero => rfl
      | succ j =>
        obtain ⟨rfl, rfl⟩ := cons_zero.mp hi
        obtain ⟨k', hk, -⟩ := cons_succ.mp hj
        simp at hk
    | succ i =>
      obtain ⟨k', rfl, hi'⟩ := cons_succ.mp hi
      cases j with
      | zero =>
        obtain ⟨rfl, hk⟩ := cons_zero.mp hj
        simp at hk
      | succ j =>
        obtain ⟨k'', hk, hj'⟩ := cons_succ.mp hj
        have heq : k' = k'' := Nat.add_right_cancel hk
        rw [ih hi' (heq ▸ hj')]

/-- There is a `k`-th member of a kind if there are more than `k` of them. -/
theorem exists_iff : (∃ i, Occurs labels kind k i) ↔ k < labels.count kind := by
  induction labels generalizing k with
  | nil => simp [not_nil]
  | cons label labels ih =>
    rw [List.count_cons]
    by_cases hkind : label = kind
    · constructor
      · rintro ⟨_ | i, hi⟩
        · obtain ⟨-, rfl⟩ := cons_zero.mp hi
          simp [hkind]
        · obtain ⟨k', rfl, hi'⟩ := cons_succ.mp hi
          simpa [hkind] using ih.mp ⟨i, hi'⟩
      · intro hk
        cases k with
        | zero => exact ⟨0, cons_zero.mpr ⟨hkind, rfl⟩⟩
        | succ k =>
          obtain ⟨i, hi⟩ := ih.mpr (show k < labels.count kind by simpa [hkind] using hk)
          exact ⟨i + 1, cons_succ.mpr ⟨k, by simp [hkind], hi⟩⟩
    · constructor
      · rintro ⟨_ | i, hi⟩
        · exact absurd (cons_zero.mp hi).1 hkind
        · obtain ⟨k', rfl, hi'⟩ := cons_succ.mp hi
          simpa [hkind] using ih.mp ⟨i, hi'⟩
      · intro hk
        obtain ⟨i, hi⟩ := ih.mpr (show k < labels.count kind by simpa [hkind] using hk)
        exact ⟨i + 1, cons_succ.mpr ⟨k, by simp [hkind], hi⟩⟩

end Occurs

/-- No label comes twice if no two places have the same. -/
theorem nodup_labels_iff {labels : List (Option String)} :
    (labels.filterMap id).Nodup ↔
      ∀ (label : String) (j j' : Nat), labels[j]? = some (some label) →
        labels[j']? = some (some label) → j = j' := by
  rw [List.Nodup, List.pairwise_filterMap, List.pairwise_iff_getElem]
  simp only [id_eq]
  constructor
  · intro h label j j' hj hj'
    obtain ⟨hlt, hj⟩ := List.getElem?_eq_some_iff.mp hj
    obtain ⟨hlt', hj'⟩ := List.getElem?_eq_some_iff.mp hj'
    rcases Nat.lt_trichotomy j j' with hless | heq | hmore
    · exact absurd rfl (h j j' hlt hlt' hless label hj label hj')
    · exact heq
    · exact absurd rfl (h j' j hlt' hlt hmore label hj' label hj)
  · intro h j j' hlt hlt' hless label hj label' hj' heq
    subst heq
    exact absurd (h label j j' (List.getElem?_eq_some_iff.mpr ⟨hlt, hj⟩)
      (List.getElem?_eq_some_iff.mpr ⟨hlt', hj'⟩)) (Nat.ne_of_lt hless)

/-! ## Where arguments go -/

/-- The argument at the place `j` goes to the parameter at the place `i`. -/
inductive Goes (params arguments : List (Option String)) (i j : Nat) : Prop
  /-- A labeled argument goes to the first parameter with its label. -/
  | labeled {label : String} (hparam : Occurs params (some label) 0 i)
      (hargument : arguments[j]? = some (some label))
  /-- The `k`-th argument without a label goes to the `k`-th parameter without one. -/
  | positional {k : Nat} (hparam : Occurs params none k i) (hargument : Occurs arguments none k j)

/-- The label of every argument is some parameter's, and none comes twice. -/
structure LabelsPass (params : List Param) (arguments : List (Argument V)) : Prop where
  known : ∀ label ∈ arguments.filterMap Argument.label, label ∈ params.filterMap Param.label
  distinct : (arguments.filterMap Argument.label).Nodup

section Definitions

variable (params : List Param) (arguments : List (Argument V))

/-- The argument at a place goes to the parameter at a place, by their labels. -/
def GoesTo (i j : Nat) : Prop :=
  Goes (params.map Param.label) (arguments.map Argument.label) i j

/-- How many parameters have no label. -/
def openPlaces : Nat := (params.map Param.label).count none

/-- How many arguments have no label. -/
def unlabeledCount : Nat := (arguments.map Argument.label).count none

end Definitions

section Places

variable {params : List Param} {arguments : List (Argument V)} {i i' j j' : Nat}

theorem GoesTo.exists_argument (h : GoesTo params arguments i j) :
    ∃ a, arguments[j]? = some a := by
  cases h with
  | labeled _ hargument =>
    obtain ⟨a, ha, -⟩ := by simpa using hargument
    exact ⟨a, ha⟩
  | positional _ hargument =>
    obtain ⟨a, ha, -⟩ := by simpa using hargument.1
    exact ⟨a, ha⟩

theorem GoesTo.exists_parameter (h : GoesTo params arguments i j) :
    ∃ param, params[i]? = some param := by
  cases h with
  | labeled hparam _ =>
    obtain ⟨param, h, -⟩ := by simpa using hparam.1
    exact ⟨param, h⟩
  | positional hparam _ =>
    obtain ⟨param, h, -⟩ := by simpa using hparam.1
    exact ⟨param, h⟩

theorem filterMap_label_eq (arguments : List (Argument V)) :
    arguments.filterMap Argument.label = (arguments.map Argument.label).filterMap id := by
  rw [List.filterMap_map]
  rfl

/-- An argument goes to one parameter. -/
theorem GoesTo.parameter_unique (h : GoesTo params arguments i j)
    (h' : GoesTo params arguments i' j) : i = i' := by
  cases h with
  | labeled hparam hargument =>
    cases h' with
    | labeled hparam' hargument' =>
      cases hargument.symm.trans hargument'
      exact hparam.unique hparam'
    | positional _ hargument' => cases hargument.symm.trans hargument'.1
  | positional hparam hargument =>
    cases h' with
    | labeled _ hargument' => cases hargument.1.symm.trans hargument'
    | positional hparam' hargument' =>
      rw [← hargument.2, hargument'.2] at hparam
      exact hparam.unique hparam'

/-- Where no label comes twice, one argument goes to a parameter. -/
theorem GoesTo.argument_unique (hdistinct : (arguments.filterMap Argument.label).Nodup)
    (h : GoesTo params arguments i j) (h' : GoesTo params arguments i j') : j = j' := by
  rw [filterMap_label_eq] at hdistinct
  cases h with
  | labeled hparam hargument =>
    cases h' with
    | labeled hparam' hargument' =>
      cases hparam.1.symm.trans hparam'.1
      exact nodup_labels_iff.mp hdistinct _ j j' hargument hargument'
    | positional hparam' _ => cases hparam.1.symm.trans hparam'.1
  | positional hparam hargument =>
    cases h' with
    | labeled hparam' _ => cases hparam.1.symm.trans hparam'.1
    | positional hparam' hargument' =>
      rw [← hparam.2, hparam'.2] at hargument
      exact hargument.unique hargument'

/-- Every argument goes to a parameter if its label is known and there are parameters enough. -/
theorem exists_goesTo (hlabels : LabelsPass params arguments)
    (hfew : unlabeledCount arguments ≤ openPlaces params) (hj : j < arguments.length) :
    ∃ i, GoesTo params arguments i j := by
  have hplace : (arguments.map Argument.label)[j]? = some arguments[j].label := by simp [hj]
  cases hlabel : arguments[j].label with
  | some label =>
    rw [hlabel] at hplace
    have hknown : label ∈ params.filterMap Param.label :=
      hlabels.known label (List.mem_filterMap.mpr ⟨arguments[j], List.getElem_mem hj, hlabel⟩)
    have hcount : 0 < (params.map Param.label).count (some label) :=
      List.count_pos_iff.mpr (by simpa using hknown)
    obtain ⟨i, hi⟩ := Occurs.exists_iff.mpr hcount
    exact ⟨i, .labeled hi hplace⟩
  | none =>
    rw [hlabel] at hplace
    have hargument : Occurs (arguments.map Argument.label) none _ j := ⟨hplace, rfl⟩
    have hcount := Occurs.exists_iff.mp ⟨j, hargument⟩
    obtain ⟨i, hi⟩ := Occurs.exists_iff.mpr (Nat.lt_of_lt_of_le hcount hfew)
    exact ⟨i, .positional hi hargument⟩

end Places

end DeferredStyle
