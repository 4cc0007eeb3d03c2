import DeferredStyle.Json.Scanner
import DeferredStyle.Proofs.Doubles
import Mathlib.Data.List.Basic

/-!
# Well-formed JSON values

A value that was read from a text has one member per key in each of its objects, in increasing
order, its negative numbers are negative and its doubles are finite.  The type of values asks for
none of this; what holds of documents only is stated under such a condition.

* `Json.induction` — induction over values.
* `Json.WellFormed`, `Json.Valid` — a weaker condition and the full one.
* `Json.valid_of_parse`, `Json.wellFormed_of_parse` — every parsed value meets them.
-/

set_option autoImplicit false

namespace DeferredStyle

/-- Induction over values: a list may assume the motive for its items, an object for the values of
its members. -/
@[elab_as_elim, induction_eliminator]
theorem Json.induction {motive : Json → Prop} (null : motive .null) (bool : ∀ b, motive (.bool b))
    (number : ∀ n, motive (.number n)) (string : ∀ s, motive (.string s))
    (array : ∀ items, (∀ item ∈ items, motive item) → motive (.array items))
    (object : ∀ members, (∀ member ∈ members, motive member.2) → motive (.object members))
    (j : Json) : motive j :=
  @Json.rec motive (fun items => ∀ item ∈ items, motive item)
    (fun members => ∀ member ∈ members, motive member.2) (fun member => motive member.2)
    null bool number string array object (by simp)
    (fun _ _ hhead htail => List.forall_mem_cons.mpr ⟨hhead, htail⟩) (by simp)
    (fun _ _ hhead htail => List.forall_mem_cons.mpr ⟨hhead, htail⟩) (fun _ _ ih => ih) j

/-- A number of the class of negative integers is negative. -/
def Number.WellFormed : Number → Prop
  | negative n => n < 0
  | _ => True

/-- Objects have one member per key, and negative integers are negative, at any depth. -/
inductive Json.WellFormed : Json → Prop
  | null : WellFormed .null
  | bool (b : Bool) : WellFormed (.bool b)
  | number {n : Number} (h : n.WellFormed) : WellFormed (.number n)
  | string (s : String) : WellFormed (.string s)
  | array {items : List Json} (h : ∀ item ∈ items, WellFormed item) : WellFormed (.array items)
  | object {members : List (String × Json)} (hkeys : (members.map Prod.fst).Nodup)
      (h : ∀ member ∈ members, WellFormed member.2) : WellFormed (.object members)

/-- A number of the class of negative integers is negative, and a double is finite. -/
def Number.Valid : Number → Prop
  | natural _ => True
  | negative n => n < 0
  | float x => x.isFinite = true

/-- The keys of objects increase, negative integers are negative and doubles are finite, at any
depth. -/
inductive Json.Valid : Json → Prop
  | null : Valid .null
  | bool (b : Bool) : Valid (.bool b)
  | number {n : Number} (h : n.Valid) : Valid (.number n)
  | string (s : String) : Valid (.string s)
  | array {items : List Json} (h : ∀ item ∈ items, Valid item) : Valid (.array items)
  | object {members : List (String × Json)} (hkeys : Increasing members)
      (h : ∀ member ∈ members, Valid member.2) : Valid (.object members)

attribute [simp] Json.Valid.null Json.Valid.bool Json.Valid.string

@[simp] theorem Json.valid_number_iff {n : Number} : Valid (.number n) ↔ n.Valid :=
  ⟨fun h => match h with | .number h => h, .number⟩

@[simp] theorem Json.valid_array_iff {items : List Json} :
    Valid (.array items) ↔ ∀ item ∈ items, Valid item :=
  ⟨fun h => match h with | .array h => h, .array⟩

@[simp] theorem Json.valid_object_iff {members : List (String × Json)} :
    Valid (.object members) ↔ Increasing members ∧ ∀ member ∈ members, Valid member.2 :=
  ⟨fun h => match h with | .object hkeys h => ⟨hkeys, h⟩, fun h => .object h.1 h.2⟩

theorem Number.Valid.wellFormed {n : Number} (h : n.Valid) : n.WellFormed := by
  cases n with
  | negative n => exact h
  | natural _ | float _ => trivial

theorem Json.Valid.wellFormed {j : Json} (h : j.Valid) : j.WellFormed := by
  induction j with
  | null => exact .null
  | bool b => exact .bool b
  | number n =>
    cases h with
    | number h => exact .number h.wellFormed
  | string s => exact .string s
  | array items ih =>
    cases h with
    | array hitems => exact .array fun item hitem => ih item hitem (hitems item hitem)
  | object members ih =>
    cases h with
    | object hkeys hvalues =>
      exact .object (Table.nodup_keys_of_increasing hkeys) fun member hmember =>
        ih member hmember (hvalues member hmember)

namespace Json

theorem valid_ofMembers {members : List (String × Json)}
    (h : ∀ member ∈ members, member.2.Valid) : (ofMembers members).Valid :=
  .object (Table.ofList members).increasing
    fun member hmember => h member (Table.mem_of_mem_ofList hmember)

/-! ## Numbers -/

theorem valid_integer (negative : Bool) (significand : Nat) :
    (integer negative significand).Valid := by
  unfold integer
  split
  · trivial
  · split
    · rename_i hrange
      change Int64.ofInt (-(significand : Int)) < 0
      rw [Int64.lt_iff_toInt_lt, Int64.toInt_ofInt_of_le (by omega) (by omega)]
      change -(significand : Int) < 0
      omega
    · exact Doubles.isFinite_neg (Doubles.isFinite_toFloat _)

theorem Written.valid_value {w : Written} {n : Number} (h : w.value = .ok n) :
    n.Valid := by
  unfold Written.value at h
  dsimp only at h
  split at h
  · cases h
    exact valid_integer _ _
  · split at h
    · cases h
    · rename_i x hscale
      cases h
      have hfinite := Doubles.isFinite_of_scale? hscale
      cases w.negative with
      | false => exact hfinite
      | true => exact Doubles.isFinite_neg hfinite

theorem valid_of_readUnsigned {negative : Bool} {text rest : List UInt8} {n : Number}
    (h : (do
      let (w, rest) ← readUnsigned negative text
      return (← w.value, rest)) = .ok (n, rest)) : n.Valid := by
  cases hread : readUnsigned negative text with
  | error f =>
    rw [hread] at h
    cases h
  | ok read =>
    cases hvalue : read.1.value with
    | error f =>
      rw [hread] at h
      change (read.1.value >>= _) = _ at h
      rw [hvalue] at h
      cases h
    | ok m =>
      rw [hread] at h
      change (read.1.value >>= _) = _ at h
      rw [hvalue] at h
      cases h
      exact Written.valid_value hvalue

theorem valid_of_readNumber {text rest : List UInt8} {n : Number}
    (h : readNumber text = .ok (n, rest)) : n.Valid := by
  unfold readNumber at h
  dsimp only at h
  split at h
  · exact valid_of_readUnsigned h
  · exact valid_of_readUnsigned h

/-! ## Sources -/

/-- Negative integers are negative and doubles are finite, at any depth. -/
inductive Source.Valid : Source → Prop
  | fault (f : Fault) : Valid (.fault f)
  | null : Valid .null
  | bool (b : Bool) : Valid (.bool b)
  | number {n : Number} (h : n.Valid) : Valid (.number n)
  | string (s : String) : Valid (.string s)
  | array {items : List Source} {close : Option Fault} (h : ∀ item ∈ items, Valid item) :
      Valid (.array items close)
  | object {members : List (String × Source)} {close : Option Fault}
      (h : ∀ member ∈ members, Valid member.2) : Valid (.object members close)

/-- Induction over sources: a list may assume the motive for its items, an object for the sources
of its members. -/
@[elab_as_elim, induction_eliminator]
theorem Source.induction {motive : Source → Prop} (fault : ∀ f, motive (.fault f))
    (null : motive .null) (bool : ∀ b, motive (.bool b)) (number : ∀ n, motive (.number n))
    (string : ∀ s, motive (.string s))
    (array : ∀ items close, (∀ item ∈ items, motive item) → motive (.array items close))
    (object : ∀ members close, (∀ member ∈ members, motive member.2) →
      motive (.object members close)) (source : Source) : motive source :=
  @Source.rec motive (fun items => ∀ item ∈ items, motive item)
    (fun members => ∀ member ∈ members, motive member.2) (fun member => motive member.2)
    fault null bool number string (fun items close ih => array items close ih)
    (fun members close ih => object members close ih) (by simp)
    (fun _ _ hhead htail => List.forall_mem_cons.mpr ⟨hhead, htail⟩) (by simp)
    (fun _ _ hhead htail => List.forall_mem_cons.mpr ⟨hhead, htail⟩) (fun _ _ ih => ih) source

theorem closing_eq_ok_iff {α : Type} {close : Option Fault} {value result : α} :
    closing close value = .ok result ↔ close = none ∧ value = result := by
  cases close <;> simp [closing]

theorem exists_of_itemsToJson {items : List Source} {values : List Json}
    (h : Source.itemsToJson items = .ok values) :
    ∀ value ∈ values, ∃ item ∈ items, item.toJson = .ok value := by
  induction items generalizing values with
  | nil =>
    cases h
    exact nofun
  | cons item items ih =>
    rw [Source.itemsToJson] at h
    split at h
    · cases h
    · rename_i value hvalue
      split at h
      · cases h
      · rename_i rest hrest
        cases h
        refine List.forall_mem_cons.mpr ⟨⟨item, List.mem_cons_self, hvalue⟩, fun v hv => ?_⟩
        obtain ⟨source, hsource, htoJson⟩ := ih hrest v hv
        exact ⟨source, List.mem_cons_of_mem item hsource, htoJson⟩

theorem exists_of_membersToJson {members : List (String × Source)}
    {values : List (String × Json)} (h : Source.membersToJson members = .ok values) :
    ∀ value ∈ values, ∃ member ∈ members, member.2.toJson = .ok value.2 := by
  induction members generalizing values with
  | nil =>
    cases h
    exact nofun
  | cons member members ih =>
    obtain ⟨key, source⟩ := member
    rw [Source.membersToJson] at h
    split at h
    · cases h
    · rename_i value hvalue
      split at h
      · cases h
      · rename_i rest hrest
        cases h
        refine List.forall_mem_cons.mpr ⟨⟨_, List.mem_cons_self, hvalue⟩, fun v hv => ?_⟩
        obtain ⟨m, hm, htoJson⟩ := ih hrest v hv
        exact ⟨m, List.mem_cons_of_mem _ hm, htoJson⟩

/-- The value of a valid source is valid. -/
theorem Source.Valid.toJson {source : Source} (h : source.Valid) {j : Json}
    (hj : source.toJson = .ok j) : j.Valid := by
  induction source generalizing j with
  | fault f => cases hj
  | null =>
    cases hj
    exact .null
  | bool b =>
    cases hj
    exact .bool b
  | number n =>
    cases hj
    cases h with
    | number h => exact .number h
  | string s =>
    cases hj
    exact .string s
  | array items close ih =>
    cases h with
    | array hitems =>
      rw [Source.toJson] at hj
      split at hj
      · cases hj
      · rename_i values hvalues
        obtain ⟨-, rfl⟩ := closing_eq_ok_iff.mp hj
        refine .array fun value hvalue => ?_
        obtain ⟨item, hitem, htoJson⟩ := exists_of_itemsToJson hvalues value hvalue
        exact ih item hitem (hitems item hitem) htoJson
  | object members close ih =>
    cases h with
    | object hmembers =>
      rw [Source.toJson] at hj
      split at hj
      · cases hj
      · rename_i values hvalues
        obtain ⟨-, rfl⟩ := closing_eq_ok_iff.mp hj
        refine valid_ofMembers fun value hvalue => ?_
        obtain ⟨member, hmember, htoJson⟩ := exists_of_membersToJson hvalues value hvalue
        exact ih member hmember (hmembers member hmember) htoJson

/-! ## Scanning -/

/-- The parts of a container are valid. -/
def Contents.Valid {α : Type} (source : α → Source) (contents : Contents α) : Prop :=
  ∀ part ∈ contents.parts, (source part).Valid

theorem valid_endContents {α : Type} (source : α → Source) (close : Option Fault)
    (rest : Option (List UInt8)) :
    (endContents close rest : Scanned (Contents α)).value.Valid source :=
  nofun

theorem valid_cons {α : Type} {source : α → Source} {part : α} {tail : Scanned (Contents α)}
    (hpart : (source part).Valid) (htail : tail.value.Valid source) :
    (Scanned.cons part tail).value.Valid source :=
  List.forall_mem_cons.mpr ⟨hpart, htail⟩

theorem valid_ofExcept {α : Type} {make : α → Source}
    {result : Except Fault (α × List UInt8)}
    (h : ∀ value rest, result = .ok (value, rest) → (make value).Valid) :
    (Scanned.ofExcept make result).value.Valid := by
  cases result with
  | error f => exact .fault f
  | ok read => exact h read.1 read.2 rfl

/-- What the five scanning functions read with some fuel is valid. -/
structure ScansValid (fuel : Nat) : Prop where
  value : ∀ depth text, (scanValue fuel depth text).value.Valid
  items : ∀ depth first text, (scanItems fuel depth first text).value.Valid id
  item : ∀ depth text, (scanItem fuel depth text).value.Valid id
  members : ∀ depth first text, (scanMembers fuel depth first text).value.Valid Prod.snd
  member : ∀ depth text, (scanMember fuel depth text).value.Valid Prod.snd

theorem ScansValid.value_succ {fuel : Nat} (h : ScansValid fuel) (depth : Nat)
    (text : List UInt8) : (scanValue (fuel + 1) depth text).value.Valid := by
  rw [scanValue]
  split
  · exact .fault _
  · repeat' split
    · exact valid_ofExcept fun _ _ _ => .null
    · exact valid_ofExcept fun _ _ _ => .bool _
    · exact valid_ofExcept fun _ _ _ => .bool _
    · exact valid_ofExcept fun _ _ hread => .number (valid_of_readNumber hread)
    · exact valid_ofExcept fun _ _ _ => .string _
    · exact .fault _
    · exact .array (h.items _ _ _)
    · exact .fault _
    · exact .object (h.members _ _ _)
    · exact .fault _

theorem ScansValid.items_succ {fuel : Nat} (h : ScansValid fuel) (depth : Nat)
    (first : Bool) (text : List UInt8) :
    (scanItems (fuel + 1) depth first text).value.Valid id := by
  unfold scanItems
  repeat' split
  all_goals first | exact h.item _ _ | exact valid_endContents _ _ _

theorem ScansValid.members_succ {fuel : Nat} (h : ScansValid fuel) (depth : Nat)
    (first : Bool) (text : List UInt8) :
    (scanMembers (fuel + 1) depth first text).value.Valid Prod.snd := by
  unfold scanMembers
  repeat' split
  all_goals first | exact h.member _ _ | exact valid_endContents _ _ _

theorem ScansValid.item_succ {fuel : Nat} (h : ScansValid fuel) (depth : Nat)
    (text : List UInt8) : (scanItem (fuel + 1) depth text).value.Valid id := by
  rw [scanItem]
  split
  · exact List.forall_mem_singleton.mpr (h.value _ _)
  · exact valid_cons (h.value _ _) (h.items _ _ _)

theorem ScansValid.member_succ {fuel : Nat} (h : ScansValid fuel) (depth : Nat)
    (text : List UInt8) : (scanMember (fuel + 1) depth text).value.Valid Prod.snd := by
  rw [scanMember]
  split
  · exact valid_endContents _ _ _
  · exact List.forall_mem_singleton.mpr (.fault _)
  · dsimp only
    split
    · exact List.forall_mem_singleton.mpr (h.value _ _)
    · exact valid_cons (h.value _ _) (h.members _ _ _)

theorem scansValid (fuel : Nat) : ScansValid fuel := by
  induction fuel with
  | zero =>
    refine ⟨fun depth text => ?_, fun depth first text => ?_, fun depth text => ?_,
      fun depth first text => ?_, fun depth text => ?_⟩
    · rw [scanValue]
      exact .fault _
    · rw [scanItems]
      exact valid_endContents _ _ _
    · rw [scanItem]
      exact valid_endContents _ _ _
    · rw [scanMembers]
      exact valid_endContents _ _ _
    · rw [scanMember]
      exact valid_endContents _ _ _
  | succ fuel ih =>
    exact ⟨ih.value_succ, ih.items_succ, ih.item_succ, ih.members_succ, ih.member_succ⟩

theorem valid_scan (text : List UInt8) : (scan text).root.Valid := by
  have hvalue := (scansValid (3 * text.length + 3)).value maxDepth text
  unfold scan
  dsimp only
  split
  · exact hvalue
  · split
    · exact hvalue
    · exact hvalue

/-- **Every parsed value is valid.** -/
theorem valid_of_parse {text : List UInt8} {j : Json} (h : parse text = .ok j) : j.Valid := by
  rw [parse, Document.toJson] at h
  split at h
  · cases h
  · rename_i value hvalue
    obtain ⟨-, rfl⟩ := closing_eq_ok_iff.mp h
    exact (valid_scan text).toJson hvalue

/-- Every parsed value is well-formed. -/
theorem wellFormed_of_parse {text : List UInt8} {j : Json} (h : parse text = .ok j) :
    j.WellFormed :=
  (valid_of_parse h).wellFormed

end Json

end DeferredStyle
