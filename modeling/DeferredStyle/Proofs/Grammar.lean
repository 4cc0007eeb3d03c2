import DeferredStyle.Proofs.Binding
import DeferredStyle.Proofs.WellFormed
import DeferredStyle.Wire.Reader
import Mathlib.Data.List.Forall2

/-!
# The grammar of call nodes

The reader of nodes is a set of functions that report what is wrong and where.  This module states
the grammar they read, as relations between JSON values and the trees they stand for, and proves
that the reader accepts a well-formed value exactly if the grammar derives a node from it, which is
then the node it returns.

* `IsText`, `IsPosition`, `IsAnnotations` — annotations.
* `IsTerm`, `IsArgument`, `IsNode` — the grammar.
* `readNode_iff_isNode` — the reader accepts the grammar, every node has one tree, and every parsed
  value is well-formed.
-/

set_option autoImplicit false

namespace DeferredStyle

/-- The integer that a number is, if it was written as one. -/
def Number.integer? : Number → Option Int
  | natural n => some n.toNat
  | negative n => some n.toInt
  | float _ => none

namespace Wire

/-! ## Annotations -/

/-- A text that may be absent or null. -/
inductive IsText : Option Json → Option String → Prop
  | absent : IsText none none
  | null : IsText (some .null) none
  | string (s : String) : IsText (some (.string s)) (some s)

/-- A 64-bit natural number that may be absent or null. -/
inductive IsPosition : Option Json → Option UInt64 → Prop
  | absent : IsPosition none none
  | null : IsPosition (some .null) none
  | number {n : Number} {position : UInt64} (h : n.integer? = some (position.toNat : Int)) :
      IsPosition (some (.number n)) (some position)

/-- Null, or an object whose members of certain keys are texts and positions. -/
inductive IsAnnotations : Json → Annotations → Prop
  | null : IsAnnotations .null .empty
  | object {members : List (String × Json)} {a : Annotations}
      (hfile : IsText (Table.lookup? "file" members) a.file)
      (hline : IsPosition (Table.lookup? "line" members) a.line)
      (hcolumn : IsPosition (Table.lookup? "column" members) a.column)
      (hmodule : IsText (Table.lookup? "module" members) a.moduleName)
      (hsource : IsText (Table.lookup? "source" members) a.source) :
      IsAnnotations (.object members) a

/-! ## Nodes -/

/-- Null stands for the tag of a member access; an attribute reference is no node. -/
inductive IsTag : Json → String → Prop
  | null : IsTag .null memberTag
  | string {tag : String} (h : tag ≠ attributeTag) : IsTag (.string tag) tag

/-- The arguments of a node after its selector, which stands first and is null or a string. -/
inductive HasSelector : List Json → Option String → List Json → Prop
  | null (rest : List Json) : HasSelector (.null :: rest) none rest
  | string (selector : String) (rest : List Json) :
      HasSelector (.string selector :: rest) (some selector) rest
  | absent {arguments : List Json} (hnull : ∀ rest, arguments ≠ .null :: rest)
      (hstring : ∀ selector rest, arguments ≠ .string selector :: rest) :
      HasSelector arguments none arguments

/-- The outline of an attribute reference: three items, the first of which is its tag. -/
def AttributeOutline (items : List Json) : Prop :=
  ∃ annotations name, items = [.string attributeTag, annotations, name]

/-- The outline of a node: a string or null, an object or null, and a list. -/
def NodeOutline (items : List Json) : Prop :=
  ∃ tag annotations arguments, items = [tag, annotations, .array arguments] ∧
    (tag = .null ∨ ∃ s, tag = .string s) ∧
    (annotations = .null ∨ ∃ members, annotations = .object members)

mutual

/-- The values that may stand as arguments and as items of lists.  A list with the outline of an
attribute reference or of a node must be one. -/
inductive IsTerm : Json → Term → Prop
  | null : IsTerm .null (.literal .nil)
  | bool (b : Bool) : IsTerm (.bool b) (.literal (.bool b))
  | int {n : Number} {i : Int64} (h : n.integer? = some i.toInt) :
      IsTerm (.number n) (.literal (.int i))
  | float {n : Number} (h : ∀ i : Int64, n.integer? ≠ some i.toInt) :
      IsTerm (.number n) (.literal (.float n.toFloat))
  | string (s : String) : IsTerm (.string s) (.literal (.string s))
  | reference {annotations : Json} {a : Annotations} {name : String}
      (hannotations : IsAnnotations annotations a) :
      IsTerm (.array [.string attributeTag, annotations, .string name]) (.reference name a)
  | call {elements : List Json} {node : Node} (hnode : IsNode (.array elements) node) :
      IsTerm (.array elements) (.call node)
  | list {items : List Json} {terms : List Term} (hattribute : ¬AttributeOutline items)
      (hnode : ¬NodeOutline items) (hitems : List.Forall₂ IsTerm items terms) :
      IsTerm (.array items) (.list terms)

/-- An object with a value and perhaps a label, or a bare value that is not an object. -/
inductive IsArgument : Json → Argument Term → Prop
  | labeled {members : List (String × Json)} {value : Json} {label : Option String} {term : Term}
      (hkeys : ∀ member ∈ members, member.1 = "label" ∨ member.1 = "value")
      (hvalue : Table.lookup? "value" members = some value)
      (hlabel : IsText (Table.lookup? "label" members) label) (hterm : IsTerm value term) :
      IsArgument (.object members) ⟨label, term⟩
  | bare {value : Json} {term : Term} (hvalue : ∀ members, value ≠ .object members)
      (hterm : IsTerm value term) : IsArgument value ⟨none, term⟩

/-- A list of a tag, annotations and arguments. -/
inductive IsNode : Json → Node → Prop
  | node {tag annotations : Json} {arguments rest : List Json} {t : String} {a : Annotations}
      {selector : Option String} {args : List (Argument Term)} (htag : IsTag tag t)
      (hannotations : IsAnnotations annotations a)
      (hselector : HasSelector arguments selector rest)
      (hargs : List.Forall₂ IsArgument rest args) :
      IsNode (.array [tag, annotations, .array arguments]) ⟨t, a, selector, args⟩

end

/-! ## Reading annotations -/

theorem readText_eq_ok_iff {value : Json} {text : Option String} :
    readText value = .ok text ↔ IsText (some value) text := by
  constructor
  · intro h
    cases value <;> cases h
    · exact .null
    · exact .string _
  · intro h
    cases h <;> rfl

theorem readPosition_eq_ok_iff {value : Json} (hvalue : value.WellFormed)
    {position : Option UInt64} :
    readPosition value = .ok position ↔ IsPosition (some value) position := by
  constructor
  · intro h
    unfold readPosition at h
    split at h <;> cases h
    · exact .null
    · exact .number rfl
  · intro h
    cases h with
    | null => rfl
    | @number n position h =>
      cases n with
      | natural n =>
        rw [Number.integer?, Option.some.injEq, Int.natCast_inj, UInt64.toNat_inj] at h
        rw [h]
        rfl
      | negative n =>
        cases hvalue with
        | number hnegative =>
          have hlt : n.toInt < 0 := Int64.lt_iff_toInt_lt.mp hnegative
          rw [Number.integer?, Option.some.injEq] at h
          omega
      | float x => cases h

/-- The new value of a field: as it was if its key was not found, and else what was found. -/
def Updates {β : Type} (IsField : Option Json → β → Prop) (old : β) (found : Option Json)
    (new : β) : Prop :=
  match found with
  | none => new = old
  | some value => IsField (some value) new

/-- The new annotations, field by field. -/
@[mk_iff]
structure UpdatesAll (old : Annotations) (found : String → Option Json) (new : Annotations) :
    Prop where
  file : Updates IsText old.file (found "file") new.file
  line : Updates IsPosition old.line (found "line") new.line
  column : Updates IsPosition old.column (found "column") new.column
  moduleName : Updates IsText old.moduleName (found "module") new.moduleName
  source : Updates IsText old.source (found "source") new.source

theorem readAnnotation_eq_ok_iff {a new : Annotations} {key : String} {value : Json}
    (hvalue : value.WellFormed) :
    readAnnotation a key value = .ok new ↔
      UpdatesAll a (fun k => if k = key then some value else none) new := by
  obtain ⟨file, line, column, moduleName, source⟩ := new
  unfold readAnnotation
  split_ifs with hfile hline hcolumn hmodule hsource
  · subst hfile
    simp only [map_eq_ok_iff, readText_eq_ok_iff, Annotations.mk.injEq, updatesAll_iff, Updates]
    grind
  · subst hline
    simp only [map_eq_ok_iff, readPosition_eq_ok_iff hvalue, Annotations.mk.injEq, updatesAll_iff,
      Updates]
    grind
  · subst hcolumn
    simp only [map_eq_ok_iff, readPosition_eq_ok_iff hvalue, Annotations.mk.injEq, updatesAll_iff,
      Updates]
    grind
  · subst hmodule
    simp only [map_eq_ok_iff, readText_eq_ok_iff, Annotations.mk.injEq, updatesAll_iff, Updates]
    grind
  · subst hsource
    simp only [map_eq_ok_iff, readText_eq_ok_iff, Annotations.mk.injEq, updatesAll_iff, Updates]
    grind
  · obtain ⟨file', line', column', moduleName', source'⟩ := a
    simp only [Except.ok.injEq, Annotations.mk.injEq, updatesAll_iff, Updates, Ne.symm hfile,
      Ne.symm hline, Ne.symm hcolumn, Ne.symm hmodule, Ne.symm hsource, if_false]
    grind

theorem lookup?_of_not_mem {key : String} {members : List (String × Json)}
    (h : key ∉ members.map Prod.fst) : Table.lookup? key members = none := by
  induction members with
  | nil => rfl
  | cons member members ih =>
    rw [List.map_cons, List.mem_cons, not_or] at h
    rw [Table.lookup?, if_neg h.1, ih h.2]

/-- A field is updated by one member after the other; no key stands twice. -/
theorem updates_cons {β : Type} {IsField : Option Json → β → Prop} {old new : β}
    {key key' : String} {value : Json} {members : List (String × Json)}
    (hkey : key ∉ members.map Prod.fst) :
    Updates IsField old (Table.lookup? key' ((key, value) :: members)) new ↔
      ∃ field, Updates IsField old (if key' = key then some value else none) field ∧
        Updates IsField field (Table.lookup? key' members) new := by
  rw [Table.lookup?]
  by_cases h : key' = key
  · subst h
    rw [if_pos rfl, lookup?_of_not_mem hkey]
    simp [Updates]
  · rw [if_neg h, if_neg h]
    simp [Updates]

theorem readAnnotationMembers_eq_ok_iff {members : List (String × Json)} {a new : Annotations}
    (hkeys : (members.map Prod.fst).Nodup) (hvalues : ∀ member ∈ members, member.2.WellFormed) :
    readAnnotationMembers a members = .ok new ↔
      UpdatesAll a (fun key => Table.lookup? key members) new := by
  induction members generalizing a with
  | nil =>
    obtain ⟨file, line, column, moduleName, source⟩ := a
    obtain ⟨file', line', column', moduleName', source'⟩ := new
    simp only [readAnnotationMembers, Except.ok.injEq, Annotations.mk.injEq, updatesAll_iff,
      Updates, Table.lookup?]
    grind
  | cons member members ih =>
    obtain ⟨key, value⟩ := member
    obtain ⟨hvalue, hvalues⟩ := List.forall_mem_cons.mp hvalues
    obtain ⟨hkey, hkeys⟩ := List.nodup_cons.mp hkeys
    have hread : readAnnotationMembers a ((key, value) :: members) = .ok new ↔
        ∃ b, readAnnotation a key value = .ok b ∧ readAnnotationMembers b members = .ok new := by
      rw [readAnnotationMembers]
      cases readAnnotation a key value <;> simp
    rw [hread]
    simp only [readAnnotation_eq_ok_iff hvalue, ih hkeys hvalues]
    constructor
    · rintro ⟨b, hfirst, hrest⟩
      exact ⟨(updates_cons hkey).mpr ⟨_, hfirst.file, hrest.file⟩,
        (updates_cons hkey).mpr ⟨_, hfirst.line, hrest.line⟩,
        (updates_cons hkey).mpr ⟨_, hfirst.column, hrest.column⟩,
        (updates_cons hkey).mpr ⟨_, hfirst.moduleName, hrest.moduleName⟩,
        (updates_cons hkey).mpr ⟨_, hfirst.source, hrest.source⟩⟩
    · intro h
      obtain ⟨file, hfile, hfile'⟩ := (updates_cons hkey).mp h.file
      obtain ⟨line, hline, hline'⟩ := (updates_cons hkey).mp h.line
      obtain ⟨column, hcolumn, hcolumn'⟩ := (updates_cons hkey).mp h.column
      obtain ⟨moduleName, hmodule, hmodule'⟩ := (updates_cons hkey).mp h.moduleName
      obtain ⟨source, hsource, hsource'⟩ := (updates_cons hkey).mp h.source
      exact ⟨⟨file, line, column, moduleName, source⟩,
        ⟨hfile, hline, hcolumn, hmodule, hsource⟩,
        ⟨hfile', hline', hcolumn', hmodule', hsource'⟩⟩

theorem updates_none_iff_isText {found : Option Json} {text : Option String} :
    Updates IsText none found text ↔ IsText found text := by
  cases found with
  | none => exact ⟨fun h => h ▸ .absent, fun h => by cases h; rfl⟩
  | some value => exact .rfl

theorem updates_none_iff_isPosition {found : Option Json} {position : Option UInt64} :
    Updates IsPosition none found position ↔ IsPosition found position := by
  cases found with
  | none => exact ⟨fun h => h ▸ .absent, fun h => by cases h; rfl⟩
  | some value => exact .rfl

/-- Annotations are read as the grammar says. -/
theorem readAnnotations_eq_ok_iff {annotations : Json} (h : annotations.WellFormed)
    {a : Annotations} : readAnnotations annotations = .ok a ↔ IsAnnotations annotations a := by
  constructor
  · intro hread
    cases annotations with
    | null =>
      cases hread
      exact .null
    | object members =>
      cases h with
      | object hkeys hvalues =>
        rw [readAnnotations] at hread
        split at hread
        · rename_i b hmembers
          cases hread
          have hall := (readAnnotationMembers_eq_ok_iff hkeys hvalues).mp hmembers
          exact .object (updates_none_iff_isText.mp hall.file)
            (updates_none_iff_isPosition.mp hall.line)
            (updates_none_iff_isPosition.mp hall.column)
            (updates_none_iff_isText.mp hall.moduleName)
            (updates_none_iff_isText.mp hall.source)
        · cases hread
    | bool _ | number _ | string _ | array _ => cases hread
  · intro hgrammar
    cases hgrammar with
    | null => rfl
    | @object members a hfile hline hcolumn hmodule hsource =>
      cases h with
      | object hkeys hvalues =>
        have hmembers : readAnnotationMembers .empty members = .ok a :=
          (readAnnotationMembers_eq_ok_iff hkeys hvalues).mpr
            ⟨updates_none_iff_isText.mpr hfile, updates_none_iff_isPosition.mpr hline,
              updates_none_iff_isPosition.mpr hcolumn, updates_none_iff_isText.mpr hmodule,
              updates_none_iff_isText.mpr hsource⟩
        rw [readAnnotations, hmembers]

/-! ## Reading numbers -/

theorem toInt_toInt64 {n : UInt64} (h : n.toNat < 0x8000000000000000) :
    n.toInt64.toInt = n.toNat := by
  change n.toBitVec.toInt = _
  rw [BitVec.toInt_eq_toNat_of_lt]
  · rfl
  · change 2 * n.toNat < 2 ^ 64
    omega

/-- A number is read as an integer exactly if it is one of 64 bits. -/
theorem toInt64?_eq_some_iff {n : Number} {i : Int64} :
    n.toInt64? = some i ↔ n.integer? = some i.toInt := by
  cases n with
  | natural n =>
    rw [Number.toInt64?, Number.integer?, Option.some.injEq]
    split
    · rename_i hlt
      rw [Option.some.injEq, ← Int64.toInt_inj, toInt_toInt64 hlt]
    · have hbound := Int64.toInt_lt i
      simp only [reduceCtorEq, false_iff]
      omega
  | negative n => rw [Number.toInt64?, Number.integer?, Option.some.injEq, Option.some.injEq,
      Int64.toInt_inj]
  | float x => simp [Number.toInt64?, Number.integer?]

theorem readNumber_iff_isTerm {n : Number} {term : Term} :
    (.ok (.literal (.ofNumber n)) : Result Term) = .ok term ↔ IsTerm (.number n) term := by
  rw [Except.ok.injEq]
  constructor
  · rintro rfl
    rw [Literal.ofNumber]
    split
    · rename_i i hi
      exact .int (toInt64?_eq_some_iff.mp hi)
    · rename_i hnone
      refine .float fun i hi => ?_
      rw [toInt64?_eq_some_iff.mpr hi] at hnone
      cases hnone
  · intro h
    cases h with
    | int hi => rw [Literal.ofNumber, toInt64?_eq_some_iff.mpr hi]
    | float hi =>
      have hnone : n.toInt64? = none :=
        Option.eq_none_iff_forall_ne_some.mpr fun i h => hi i (toInt64?_eq_some_iff.mp h)
      rw [Literal.ofNumber, hnone]

/-! ## Parts of results -/

theorem under_eq_ok_iff {α : Type} {step : Step} {result : Result α} {a : α} :
    result.under step = .ok a ↔ result = .ok a := by
  cases result <;> simp [Result.under]

theorem consAt_eq_ok_iff {α : Type} {i : Nat} {head : Result α} {tail : Result (List α)}
    {as : List α} :
    consAt i head tail = .ok as ↔ ∃ a rest, head = .ok a ∧ tail = .ok rest ∧ a :: rest = as := by
  cases head <;> cases tail <;> simp [consAt, Result.under]

theorem makeNode_eq_ok_iff {head : String × Annotations} {selector : Option String}
    {arguments : Result (List (Argument Term))} {node : Node} :
    makeNode head selector arguments = .ok node ↔
      ∃ args, arguments = .ok args ∧ ⟨head.1, head.2, selector, args⟩ = node := by
  cases arguments <;> simp [makeNode, Result.under]

/-- Read every item, the first of which has the index `i`. -/
def readEach {α : Type} (read : Json → Result α) (i : Nat) : List Json → Result (List α)
  | [] => .ok []
  | item :: items => consAt i (read item) (readEach read (i + 1) items)

theorem readEach_eq_ok_iff {α : Type} {read : Json → Result α} {R : Json → α → Prop}
    {items : List Json} (h : ∀ item ∈ items, ∀ a, read item = .ok a ↔ R item a) (i : Nat)
    {as : List α} : readEach read i items = .ok as ↔ List.Forall₂ R items as := by
  induction items generalizing i as with
  | nil =>
    rw [readEach, Except.ok.injEq, List.forall₂_nil_left_iff, eq_comm]
  | cons item items ih =>
    have hrest : ∀ rest, readEach read (i + 1) items = .ok rest ↔ List.Forall₂ R items rest :=
      fun rest => ih (fun j hj => h j (List.mem_cons_of_mem item hj)) (i + 1)
    rw [readEach, consAt_eq_ok_iff, List.forall₂_cons_left_iff]
    simp only [h item List.mem_cons_self, hrest, eq_comm]

/-! ## Reading arguments -/

/-- The argument of an object or of a bare value. -/
def argumentReading : Json → Result (Argument Term)
  | .object members => readLabeled members (readValueMember? members)
  | value => readBare (readTerm value)

theorem readItems_eq (i : Nat) (items : List Json) :
    readItems i items = readEach readTerm i items := by
  induction items generalizing i with
  | nil => rfl
  | cons item items ih => rw [readItems, readEach, ih]

theorem readArguments_eq (i : Nat) (items : List Json) :
    readArguments i items = readEach argumentReading i items := by
  induction items generalizing i with
  | nil => rfl
  | cons item items ih =>
    rw [readEach, ← ih]
    cases item <;> rfl

theorem readValueMember?_eq (members : List (String × Json)) :
    readValueMember? members = (Table.lookup? "value" members).map readTerm := by
  induction members with
  | nil => rfl
  | cons member members ih =>
    obtain ⟨key, value⟩ := member
    rw [readValueMember?, Table.lookup?, ih]
    by_cases h : key = "value"
    · rw [if_pos h, if_pos h.symm]
      rfl
    · rw [if_neg h, if_neg (Ne.symm h)]

theorem unexpectedKey?_eq_none_iff {members : List (String × Json)} :
    unexpectedKey? members = none ↔
      ∀ member ∈ members, member.1 = "label" ∨ member.1 = "value" := by
  induction members with
  | nil => simp [unexpectedKey?]
  | cons member members ih =>
    obtain ⟨key, value⟩ := member
    rw [unexpectedKey?, List.forall_mem_cons]
    by_cases h : key = "label" ∨ key = "value"
    · simp [h, ih]
    · simp [h]

theorem readLabel_eq_ok_iff {found : Option Json} {label : Option String} :
    readLabel found = .ok label ↔ IsText found label := by
  constructor
  · intro h
    unfold readLabel at h
    split at h <;> cases h
    · exact .absent
    · exact .null
    · exact .string _
  · intro h
    cases h <;> rfl

theorem readLabeled_eq_ok_iff {members : List (String × Json)} {argument : Argument Term}
    (hvalues : ∀ member ∈ members, ∀ term, readTerm member.2 = .ok term ↔ IsTerm member.2 term) :
    readLabeled members (readValueMember? members) = .ok argument ↔
      IsArgument (.object members) argument := by
  rw [readValueMember?_eq]
  constructor
  · intro h
    unfold readLabeled at h
    split at h
    · cases h
    · rename_i hkeys
      split at h
      · cases h
      · rename_i reading hreading
        obtain ⟨value, hvalue, rfl⟩ := Option.map_eq_some_iff.mp hreading
        split at h
        · cases h
        · rename_i label hlabel
          split at h
          · cases h
          · rename_i term hterm
            cases h
            exact .labeled (unexpectedKey?_eq_none_iff.mp hkeys) hvalue
              (readLabel_eq_ok_iff.mp hlabel)
              ((hvalues _ (mem_of_lookup? hvalue) term).mp (under_eq_ok_iff.mp hterm))
  · intro h
    cases h with
    | labeled hkeys hvalue hlabel hterm =>
      simp only [readLabeled, unexpectedKey?_eq_none_iff.mpr hkeys, hvalue, Option.map_some,
        readLabel_eq_ok_iff.mpr hlabel, (hvalues _ (mem_of_lookup? hvalue) _).mpr hterm,
        Result.under]
    | bare hvalue _ => exact absurd rfl (hvalue members)

/-- A value that is no object is read as an argument if it is read as a term. -/
theorem argumentReading_eq_ok_iff {value : Json} (hvalue : ∀ members, value ≠ .object members)
    (hterm : ∀ term, readTerm value = .ok term ↔ IsTerm value term) (argument : Argument Term) :
    argumentReading value = .ok argument ↔ IsArgument value argument := by
  have hbare : argumentReading value = readBare (readTerm value) := by
    cases value with
    | object members => exact absurd rfl (hvalue members)
    | _ => rfl
  rw [hbare, readBare, map_eq_ok_iff]
  constructor
  · rintro ⟨term, hread, rfl⟩
    exact .bare hvalue ((hterm term).mp hread)
  · intro h
    cases h with
    | labeled _ _ _ _ => exact absurd rfl (hvalue _)
    | bare _ h => exact ⟨_, (hterm _).mpr h, rfl⟩

/-! ## Reading nodes -/

theorem readHead_eq_ok_iff {tag annotations : Json} (h : annotations.WellFormed)
    {head : String × Annotations} :
    readHead tag annotations = .ok head ↔ IsTag tag head.1 ∧ IsAnnotations annotations head.2 := by
  obtain ⟨t, a⟩ := head
  rw [← readAnnotations_eq_ok_iff h]
  constructor
  · intro hread
    unfold readHead at hread
    split at hread
    · cases hread
    · rename_i tagText htag
      split at hread
      · cases hread
      · rename_i b ha
        split at hread
        · cases hread
        · rename_i hattribute
          cases hread
          refine ⟨?_, under_eq_ok_iff.mp ha⟩
          cases tag <;> cases htag
          · exact .null
          · exact .string hattribute
  · rintro ⟨htag, ha⟩
    cases htag with
    | null =>
      simp only [readHead, readTag, Result.under, ha]
      rfl
    | string hattribute => simp [readHead, readTag, Result.under, ha, hattribute]

theorem exists_hasSelector (arguments : List Json) :
    ∃ selector rest, HasSelector arguments selector rest := by
  by_cases hnull : ∃ rest, arguments = .null :: rest
  · obtain ⟨rest, rfl⟩ := hnull
    exact ⟨none, rest, .null rest⟩
  · by_cases hstring : ∃ selector rest, arguments = .string selector :: rest
    · obtain ⟨selector, rest, rfl⟩ := hstring
      exact ⟨some selector, rest, .string selector rest⟩
    · exact ⟨none, arguments, .absent (fun rest h => hnull ⟨rest, h⟩)
        fun selector rest h => hstring ⟨selector, rest, h⟩⟩

/-- The arguments of a node are read behind its selector. -/
theorem readElements_of_hasSelector (tag annotations : Json) {arguments rest : List Json}
    {selector : Option String} (h : HasSelector arguments selector rest) :
    ∃ i, readElements [tag, annotations, .array arguments] =
      match readHead tag annotations with
      | .error m => .error m
      | .ok head => makeNode head selector (readArguments i rest) := by
  cases h with
  | null rest => exact ⟨1, rfl⟩
  | string selector rest => exact ⟨1, rfl⟩
  | absent hnull hstring =>
    refine ⟨0, ?_⟩
    rw [readElements]
    cases readHead tag annotations with
    | error m => rfl
    | ok head =>
      dsimp only
      split
      · exact absurd rfl (hnull _)
      · exact absurd rfl (hstring _ _)
      · rfl

theorem HasSelector.mem {arguments rest : List Json} {selector : Option String}
    (h : HasSelector arguments selector rest) : ∀ item ∈ rest, item ∈ arguments := by
  cases h with
  | null rest => exact fun item hitem => List.mem_cons_of_mem _ hitem
  | string selector rest => exact fun item hitem => List.mem_cons_of_mem _ hitem
  | absent _ _ => exact fun item hitem => hitem

/-- Three elements are read as the grammar says, if the arguments among them are. -/
theorem readElements_eq_ok_iff {tag annotations : Json} {arguments : List Json}
    (hannotations : annotations.WellFormed)
    (harguments : ∀ item ∈ arguments, ∀ a, argumentReading item = .ok a ↔ IsArgument item a)
    {node : Node} :
    readElements [tag, annotations, .array arguments] = .ok node ↔
      IsNode (.array [tag, annotations, .array arguments]) node := by
  have hread {rest : List Json} {selector : Option String}
      (h : HasSelector arguments selector rest) (i : Nat) (args : List (Argument Term)) :
      readArguments i rest = .ok args ↔ List.Forall₂ IsArgument rest args := by
    rw [readArguments_eq]
    exact readEach_eq_ok_iff (fun item hitem => harguments item (h.mem item hitem)) i
  constructor
  · intro h
    obtain ⟨selector, rest, hselector⟩ := exists_hasSelector arguments
    obtain ⟨i, helements⟩ := readElements_of_hasSelector tag annotations hselector
    rw [helements] at h
    split at h
    · cases h
    · rename_i head hhead
      obtain ⟨args, hargs, rfl⟩ := makeNode_eq_ok_iff.mp h
      obtain ⟨htag, ha⟩ := (readHead_eq_ok_iff hannotations).mp hhead
      exact .node htag ha hselector ((hread hselector i args).mp hargs)
  · intro h
    cases h with
    | @node _ _ _ rest t a selector args htag ha hselector hargs =>
      obtain ⟨i, helements⟩ := readElements_of_hasSelector tag annotations hselector
      have hhead : readHead tag annotations = .ok (t, a) :=
        (readHead_eq_ok_iff hannotations).mpr ⟨htag, ha⟩
      rw [helements, hhead]
      exact makeNode_eq_ok_iff.mpr ⟨args, (hread hselector i args).mpr hargs, rfl⟩

/-- Only three elements the last of which is a list are read as a node. -/
theorem exists_of_readElements {elements : List Json} {node : Node}
    (h : readElements elements = .ok node) :
    ∃ tag annotations arguments, elements = [tag, annotations, .array arguments] := by
  unfold readElements at h
  split at h
  · exact ⟨_, _, _, rfl⟩
  · split at h <;> cases h
  · cases h

/-! ## Reading terms -/

theorem isNodeShaped_iff {items : List Json} : isNodeShaped items = true ↔ NodeOutline items := by
  constructor
  · intro h
    unfold isNodeShaped at h
    split at h
    · rename_i tag annotations arguments
      obtain ⟨htag, hannotations⟩ := Bool.and_eq_true_iff.mp h
      refine ⟨tag, annotations, arguments, rfl, ?_, ?_⟩
      · cases tag <;> first | exact .inl rfl | exact .inr ⟨_, rfl⟩ | cases htag
      · cases annotations <;> first | exact .inl rfl | exact .inr ⟨_, rfl⟩ | cases hannotations
    · cases h
  · rintro ⟨tag, annotations, arguments, rfl, rfl | ⟨s, rfl⟩, rfl | ⟨members, rfl⟩⟩ <;> rfl

theorem nodeOutline_of_isNode {elements : List Json} {node : Node}
    (h : IsNode (.array elements) node) : NodeOutline elements := by
  cases h with
  | node htag hannotations _ _ =>
    refine ⟨_, _, _, rfl, ?_, ?_⟩
    · cases htag with
      | null => exact .inl rfl
      | string _ => exact .inr ⟨_, rfl⟩
    · cases hannotations with
      | null => exact .inl rfl
      | object _ _ _ _ _ => exact .inr ⟨_, rfl⟩

theorem not_attributeOutline_of_isNode {elements : List Json} {node : Node}
    (h : IsNode (.array elements) node) : ¬AttributeOutline elements := by
  rintro ⟨annotations, name, rfl⟩
  cases h with
  | node htag _ _ _ =>
    cases htag with
    | string hattribute => exact hattribute rfl

theorem readAttribute?_of_not_outline {items : List Json} (h : ¬AttributeOutline items) :
    readAttribute? items = .ok none := by
  unfold readAttribute?
  split
  · rename_i tag annotations name
    rw [if_neg]
    rintro rfl
    exact h ⟨annotations, name, rfl⟩
  · rfl

/-- What is tagged as an attribute reference must be one. -/
theorem readTerm_attribute_eq_ok_iff {annotations name : Json} (h : annotations.WellFormed)
    {term : Term} :
    readTerm (.array [.string attributeTag, annotations, name]) = .ok term ↔
      IsTerm (.array [.string attributeTag, annotations, name]) term := by
  constructor
  · intro hread
    rw [readTerm, readAttribute?, if_pos rfl] at hread
    cases ha : readAnnotations annotations with
    | error m =>
      rw [ha] at hread
      cases hread
    | ok a =>
      rw [ha] at hread
      cases name with
      | string name =>
        cases hread
        exact .reference ((readAnnotations_eq_ok_iff h).mp ha)
      | null | bool _ | number _ | array _ | object _ => cases hread
  · intro hgrammar
    generalize hitems : Json.array [.string attributeTag, annotations, name] = j at hgrammar
    cases hgrammar with
    | reference ha =>
      cases hitems
      rw [readTerm, readAttribute?, if_pos rfl, (readAnnotations_eq_ok_iff h).mpr ha]
      rfl
    | call hnode =>
      cases hitems
      exact absurd ⟨annotations, name, rfl⟩ (not_attributeOutline_of_isNode hnode)
    | list hattribute _ _ =>
      cases hitems
      exact absurd ⟨annotations, name, rfl⟩ hattribute
    | null | bool _ | int _ | float _ | string _ => cases hitems

/-! ## Values -/

/-- The value is read as the grammar says: as a term, as an argument, and as the list of arguments
of a node. -/
structure Reads (j : Json) : Prop where
  term : ∀ term, readTerm j = .ok term ↔ IsTerm j term
  argument : ∀ argument, argumentReading j = .ok argument ↔ IsArgument j argument
  arguments : ∀ items, j = .array items → ∀ item ∈ items, ∀ argument,
    argumentReading item = .ok argument ↔ IsArgument item argument

/-- A value that is neither a list nor an object is read as an argument if it is read as a term. -/
theorem Reads.of_term {j : Json} (hterm : ∀ term, readTerm j = .ok term ↔ IsTerm j term)
    (hobject : ∀ members, j ≠ .object members) (harray : ∀ items, j ≠ .array items) : Reads j :=
  ⟨hterm, argumentReading_eq_ok_iff hobject hterm, fun items h => absurd h (harray items)⟩

theorem readTerm_array_eq_ok_iff {items : List Json} (hitems : ∀ item ∈ items, item.WellFormed)
    (hreads : ∀ item ∈ items, Reads item) (term : Term) :
    readTerm (.array items) = .ok term ↔ IsTerm (.array items) term := by
  by_cases hattribute : AttributeOutline items
  · obtain ⟨annotations, name, rfl⟩ := hattribute
    exact readTerm_attribute_eq_ok_iff (hitems annotations (by simp))
  rw [readTerm, readAttribute?_of_not_outline hattribute]
  by_cases hnode : NodeOutline items
  · obtain ⟨tag, annotations, arguments, rfl, -⟩ := id hnode
    have helements (node : Node) : readElements [tag, annotations, .array arguments] = .ok node ↔
        IsNode (.array [tag, annotations, .array arguments]) node :=
      readElements_eq_ok_iff (hitems annotations (by simp))
        ((hreads (.array arguments) (by simp)).arguments _ rfl)
    simp only [isNodeShaped_iff.mpr hnode, if_true, map_eq_ok_iff, helements]
    constructor
    · rintro ⟨node, hisNode, rfl⟩
      exact .call hisNode
    · intro h
      cases h with
      | call hisNode => exact ⟨_, hisNode, rfl⟩
      | list _ hnot _ => exact absurd hnode hnot
  · have hshaped : isNodeShaped items = false :=
      Bool.eq_false_iff.mpr fun h => hnode (isNodeShaped_iff.mp h)
    simp only [hshaped, Bool.false_eq_true, if_false, map_eq_ok_iff, readItems_eq,
      readEach_eq_ok_iff fun item hitem => (hreads item hitem).term]
    constructor
    · rintro ⟨terms, hterms, rfl⟩
      exact .list hattribute hnode hterms
    · intro h
      cases h with
      | reference _ => exact absurd ⟨_, _, rfl⟩ hattribute
      | call hisNode => exact absurd (nodeOutline_of_isNode hisNode) hnode
      | list _ _ hterms => exact ⟨_, hterms, rfl⟩

/-- **Every well-formed value is read as the grammar says.** -/
theorem reads {j : Json} (h : j.WellFormed) : Reads j := by
  induction j with
  | null =>
    refine .of_term (fun term => ⟨fun hread => ?_, fun hterm => ?_⟩) nofun nofun
    · cases hread
      exact .null
    · cases hterm
      rfl
  | bool b =>
    refine .of_term (fun term => ⟨fun hread => ?_, fun hterm => ?_⟩) nofun nofun
    · cases hread
      exact .bool b
    · cases hterm
      rfl
  | number n => exact .of_term (fun term => readNumber_iff_isTerm) nofun nofun
  | string s =>
    refine .of_term (fun term => ⟨fun hread => ?_, fun hterm => ?_⟩) nofun nofun
    · cases hread
      exact .string s
    · cases hterm
      rfl
  | array items ih =>
    cases h with
    | array hitems =>
      have hreads : ∀ item ∈ items, Reads item := fun item hitem => ih item hitem (hitems item hitem)
      have hterm := readTerm_array_eq_ok_iff hitems hreads
      refine ⟨hterm, argumentReading_eq_ok_iff nofun hterm, fun items' heq item hitem => ?_⟩
      cases heq
      exact (hreads item hitem).argument
  | object members ih =>
    cases h with
    | object _ hvalues =>
      refine ⟨fun term => ⟨fun hread => ?_, fun hterm => ?_⟩, fun argument => ?_, nofun⟩
      · cases hread
      · cases hterm
      · exact readLabeled_eq_ok_iff fun member hmember =>
          (ih member hmember (hvalues member hmember)).term

theorem readNode_eq_ok_iff {j : Json} (h : j.WellFormed) {node : Node} :
    readNode j = .ok node ↔ IsNode j node := by
  constructor
  · intro hread
    cases j with
    | array elements =>
      obtain ⟨tag, annotations, arguments, rfl⟩ := exists_of_readElements hread
      cases h with
      | array hitems =>
        refine (readElements_eq_ok_iff (hitems annotations (by simp)) ?_).mp hread
        exact (reads (hitems (.array arguments) (by simp))).arguments _ rfl
    | null | bool _ | number _ | string _ | object _ => cases hread
  · intro hnode
    cases id hnode with
    | @node tag annotations arguments _ _ _ _ _ _ _ _ _ =>
      cases h with
      | array hitems =>
        refine (readElements_eq_ok_iff (hitems annotations (by simp)) ?_).mpr hnode
        exact (reads (hitems (.array arguments) (by simp))).arguments _ rfl

/-- **The reader of nodes accepts the grammar.**  It reads a node from a well-formed value exactly
if the grammar derives the node from the value, the grammar derives at most one node from it, and
every value that was parsed from a text is well-formed. -/
theorem readNode_iff_isNode :
    (∀ j : Json, j.WellFormed → ∀ node, readNode j = .ok node ↔ IsNode j node) ∧
    (∀ j : Json, j.WellFormed → ∀ node node', IsNode j node → IsNode j node' → node = node') ∧
    ∀ text j, Json.parse text = .ok j → j.WellFormed := by
  refine ⟨fun j hj node => readNode_eq_ok_iff hj, fun j hj node node' hnode hnode' => ?_,
    fun text j hparse => Json.wellFormed_of_parse hparse⟩
  have hread := (readNode_eq_ok_iff hj).mpr hnode
  rw [(readNode_eq_ok_iff hj).mpr hnode'] at hread
  exact (Except.ok.inj hread).symm

/-- A node with a labeled argument, an attribute reference and a list that is no node, because its
last item is no list. -/
theorem readNode_iff_isNode_frame :
    let frame : Json := .array [.string "frame", .object [("line", .number (.natural 3))],
      .array [.null, .object [("label", .string "width"), ("value", .number (.natural 82))],
        .array [.string "__attr__", .null, .string "height"],
        .array [.string "leading", .null, .bool true]]]
    let node : Node := ⟨"frame", ⟨none, some 3, none, none, none⟩, none,
      [⟨some "width", .literal (.int 82)⟩, ⟨none, .reference "height" .empty⟩,
        ⟨none, .list [.literal (.string "leading"), .literal .nil, .literal (.bool true)]⟩]⟩
    IsNode frame node ∧ ∀ node', IsNode frame node' → node' = node := by
  intro frame node
  have hnatural (n : UInt64) : (Json.number (.natural n)).WellFormed := .number trivial
  have hwellFormed : frame.WellFormed := by
    refine .array ?_
    simp only [List.forall_mem_cons, List.not_mem_nil, false_imp_iff, implies_true, and_true]
    refine ⟨.string _, .object (by decide) ?_, .array ?_⟩
    · simpa using hnatural 3
    · simp only [List.forall_mem_cons, List.not_mem_nil, false_imp_iff, implies_true, and_true]
      refine ⟨.null, .object (by decide) ?_, .array ?_, .array ?_⟩
      · simpa using ⟨Json.WellFormed.string _, hnatural 82⟩
      · simpa using ⟨Json.WellFormed.string _, Json.WellFormed.null, Json.WellFormed.string _⟩
      · simpa using ⟨Json.WellFormed.string _, Json.WellFormed.null, Json.WellFormed.bool _⟩
  have hread : readNode frame = .ok node := by rfl
  have hnode := (readNode_iff_isNode.1 frame hwellFormed node).mp hread
  exact ⟨hnode, fun node' hnode' =>
    readNode_iff_isNode.2.1 frame hwellFormed node' node hnode' hnode⟩

end Wire

end DeferredStyle
