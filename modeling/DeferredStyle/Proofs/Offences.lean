import DeferredStyle.Proofs.Tracing

/-!
# The first element that offends

The path of an error leads from the value that was read to the element that is wrong, and what is
read before this element is in order.

* `Json.follow?` — the part of a value that steps lead to.
* `Role.read` — the reading of a value as a part of a document.
* `Offends` — the first element of a value that cannot be read; `offends_iff` — the reader reports
  it.
* `Offends.split`, `Offends.clearBefore` — what lies on the way to it.
* `path_of_first_offence` — the path of every error.
-/

set_option autoImplicit false

namespace DeferredStyle

/-- The part of a value that a step leads to. -/
def Json.step? : Json → Step → Option Json
  | .array items, .index i => items[i]?
  | .object members, .value => Table.lookup? "value" members
  | _, _ => none

/-- The part of a value that steps lead to. -/
def Json.follow? (j : Json) : List Step → Option Json
  | [] => some j
  | step :: steps => (j.step? step).bind fun value => value.follow? steps

namespace Wire

/-! ## Parts of documents -/

/-- What a value is read as. -/
inductive Role where
  | node
  | tag
  | annotations
  /-- The selector and the arguments of a node. -/
  | arguments
  | argument
  | term
  /-- The name in an attribute reference. -/
  | name

/-- What comes of reading a value as a part of a document. -/
def Role.Tree : Role → Type
  | node => Node
  | tag => String
  | annotations => Annotations
  | arguments => List (Argument Term)
  | argument => Argument Term
  | term => Term
  | name => String

/-- The reading of a list of arguments, of which a selector is one. -/
def containerReading : Json → Result (List (Argument Term))
  | .array items => readEach argumentReading 0 items
  | _ => .error Malformation.noArguments.here

/-- The reading of the name in an attribute reference. -/
def nameReading : Json → Result String
  | .string name => .ok name
  | _ => .error Malformation.attributeName.here

/-- The reading of a value as a part of a document. -/
def Role.read : (role : Role) → Json → Result role.Tree
  | node => readNode
  | tag => readTag
  | annotations => readAnnotations
  | arguments => containerReading
  | argument => argumentReading
  | term => readTerm
  | name => nameReading

/-- A value that can be read as a part of a document. -/
def Role.Accepts (role : Role) (j : Json) : Prop := ∃ tree, role.read j = .ok tree

theorem accepts_tag_iff {j : Json} : Role.tag.Accepts j ↔ ∃ tag, readTag j = .ok tag := Iff.rfl

theorem accepts_annotations_iff {j : Json} :
    Role.annotations.Accepts j ↔ ∃ a, readAnnotations j = .ok a := Iff.rfl

/-- The members of an argument are its label and its value. -/
def IsArgumentKey (key : String) : Prop := key = "label" ∨ key = "value"

instance (key : String) : Decidable (IsArgumentKey key) :=
  inferInstanceAs (Decidable (key = "label" ∨ key = "value"))

/-- The first element of a value that offends when the value is read as a part of a document, the
steps to it, and what is wrong with it. -/
inductive Offends : Role → Json → List Step → Malformation → Prop
  -- Nodes: the number of elements, the tag, the annotations, the misplaced tag, the arguments.
  | notNode {j : Json} (h : ∀ elements, j ≠ .array elements) : Offends .node j [] .notNode
  | nodeLength {elements : List Json} (h : elements.length ≠ 3) :
      Offends .node (.array elements) [] (.nodeLength elements.length)
  | inTag {tag annotations arguments : Json} {steps : List Step} {m : Malformation}
      (h : Offends .tag tag steps m) :
      Offends .node (.array [tag, annotations, arguments]) (.index 0 :: steps) m
  | inAnnotations {tag annotations arguments : Json} {steps : List Step} {m : Malformation}
      (htag : Role.tag.Accepts tag) (h : Offends .annotations annotations steps m) :
      Offends .node (.array [tag, annotations, arguments]) (.index 1 :: steps) m
  | misplaced {annotations arguments : Json} (hannotations : Role.annotations.Accepts annotations) :
      Offends .node (.array [.string attributeTag, annotations, arguments]) [] .misplacedAttribute
  | inArguments {tag annotations arguments : Json} {steps : List Step} {m : Malformation}
      (htag : Role.tag.Accepts tag) (hreference : tag ≠ .string attributeTag)
      (hannotations : Role.annotations.Accepts annotations)
      (h : Offends .arguments arguments steps m) :
      Offends .node (.array [tag, annotations, arguments]) (.index 2 :: steps) m
  -- Tags and annotations.
  | tagKind {j : Json} (hnull : j ≠ .null) (hstring : ∀ s, j ≠ .string s) :
      Offends .tag j [] (.tagKind j.kind)
  | annotationsKind {j : Json} (hnull : j ≠ .null) (hobject : ∀ members, j ≠ .object members) :
      Offends .annotations j [] (.annotationsKind j.kind)
  | annotationField {front back : List (String × Json)} {key : String} {value : Json}
      {a : Annotations} {mismatch : Json.Mismatch}
      (hfront : readAnnotationMembers .empty front = .ok a)
      (h : readAnnotation a key value = .error mismatch) :
      Offends .annotations (.object (front ++ (key, value) :: back)) [] (.annotationField mismatch)
  -- Lists of arguments.  A selector is never the first that offends, for it is read as an argument.
  | noArguments {j : Json} (h : ∀ items, j ≠ .array items) :
      Offends .arguments j [] .noArguments
  | inArgument {earlier later : List Json} {item : Json} {steps : List Step} {m : Malformation}
      (hearlier : ∀ a ∈ earlier, Role.argument.Accepts a) (h : Offends .argument item steps m) :
      Offends .arguments (.array (earlier ++ item :: later)) (.index earlier.length :: steps) m
  -- Arguments: the keys, the value that is missing, the label, the value.
  | unexpectedKey {front back : List (String × Json)} {key : String} {value : Json}
      (hfront : ∀ member ∈ front, IsArgumentKey member.1) (h : ¬IsArgumentKey key) :
      Offends .argument (.object (front ++ (key, value) :: back)) [] (.unexpectedKey key)
  | noValue {members : List (String × Json)} (hkeys : ∀ member ∈ members, IsArgumentKey member.1)
      (h : Table.lookup? "value" members = none) : Offends .argument (.object members) [] .noValue
  | labelKind {members : List (String × Json)} {value label : Json}
      (hkeys : ∀ member ∈ members, IsArgumentKey member.1)
      (hvalue : Table.lookup? "value" members = some value)
      (hlabel : Table.lookup? "label" members = some label) (hnull : label ≠ .null)
      (hstring : ∀ s, label ≠ .string s) :
      Offends .argument (.object members) [] (.labelKind label.kind)
  | inValue {members : List (String × Json)} {value : Json} {label : Option String}
      {steps : List Step} {m : Malformation} (hkeys : ∀ member ∈ members, IsArgumentKey member.1)
      (hvalue : Table.lookup? "value" members = some value)
      (hlabel : IsText (Table.lookup? "label" members) label) (h : Offends .term value steps m) :
      Offends .argument (.object members) (.value :: steps) m
  | bare {j : Json} {steps : List Step} {m : Malformation}
      (hobject : ∀ members, j ≠ .object members) (h : Offends .term j steps m) :
      Offends .argument j steps m
  -- Terms: attribute references, nodes, and lists that are neither.
  | bareObject {members : List (String × Json)} : Offends .term (.object members) [] .bareObject
  | inReference {annotations name : Json} {steps : List Step} {m : Malformation}
      (h : Offends .annotations annotations steps m) :
      Offends .term (.array [.string attributeTag, annotations, name]) (.index 1 :: steps) m
  | inName {annotations name : Json} {steps : List Step} {m : Malformation}
      (hannotations : Role.annotations.Accepts annotations) (h : Offends .name name steps m) :
      Offends .term (.array [.string attributeTag, annotations, name]) (.index 2 :: steps) m
  | call {elements : List Json} {steps : List Step} {m : Malformation}
      (hattribute : ¬AttributeOutline elements) (hnode : NodeOutline elements)
      (h : Offends .node (.array elements) steps m) : Offends .term (.array elements) steps m
  | inItem {items earlier later : List Json} {item : Json} {steps : List Step} {m : Malformation}
      (hattribute : ¬AttributeOutline items) (hnode : ¬NodeOutline items)
      (hitems : items = earlier ++ item :: later) (hearlier : ∀ t ∈ earlier, Role.term.Accepts t)
      (h : Offends .term item steps m) :
      Offends .term (.array items) (.index earlier.length :: steps) m
  | attributeName {j : Json} (h : ∀ s, j ≠ .string s) : Offends .name j [] .attributeName

/-! ## Errors of the reader -/

theorem under_of_eq_error {α : Type} (step : Step) {result : Result α} {steps : List Step}
    {m : Malformation} (h : result = .error ⟨steps, m⟩) :
    result.under step = .error ⟨step :: steps, m⟩ := by
  rw [h]
  rfl

theorem under_eq_error_iff {α : Type} {step : Step} {result : Result α} {steps : List Step}
    {m : Malformation} :
    result.under step = .error ⟨steps, m⟩ ↔
      ∃ inner, result = .error ⟨inner, m⟩ ∧ step :: inner = steps := by
  cases result with
  | ok a => simp [Result.under]
  | error misreading =>
    obtain ⟨own, malformation⟩ := misreading
    simp only [Result.under, Misreading.under, Except.error.injEq, Misreading.mk.injEq]
    constructor
    · rintro ⟨rfl, rfl⟩
      exact ⟨own, ⟨rfl, rfl⟩, rfl⟩
    · rintro ⟨_, ⟨rfl, rfl⟩, rfl⟩
      exact ⟨rfl, rfl⟩

/-- Reading every item fails as what is behind the first item, if this can be read. -/
theorem readEach_cons_eq_error_iff {α : Type} {read : Json → Result α} {item : Json} {a : α}
    (h : read item = .ok a) {items : List Json} {i : Nat} {m : Misreading} :
    readEach read i (item :: items) = .error m ↔ readEach read (i + 1) items = .error m := by
  rw [readEach, h]
  cases readEach read (i + 1) items <;> simp [consAt, Result.under]

/-- Reading every item fails as what is behind some items, if these can be read. -/
theorem readEach_append_eq_error_iff {α : Type} {read : Json → Result α} {earlier rest : List Json}
    (h : ∀ e ∈ earlier, ∃ a, read e = .ok a) {i : Nat} {m : Misreading} :
    readEach read i (earlier ++ rest) = .error m ↔
      readEach read (i + earlier.length) rest = .error m := by
  induction earlier generalizing i with
  | nil => rfl
  | cons item earlier ih =>
    obtain ⟨⟨a, ha⟩, hearlier⟩ := List.forall_mem_cons.mp h
    rw [List.cons_append, readEach_cons_eq_error_iff ha, ih hearlier, List.length_cons,
      Nat.add_right_comm, Nat.add_assoc]

/-- Reading every item fails at the first that cannot be read. -/
theorem readEach_eq_error_iff {α : Type} {read : Json → Result α} {items : List Json} {i : Nat}
    {steps : List Step} {m : Malformation} :
    readEach read i items = .error ⟨steps, m⟩ ↔
      ∃ earlier item later inner, items = earlier ++ item :: later ∧
        (∀ e ∈ earlier, ∃ a, read e = .ok a) ∧ read item = .error ⟨inner, m⟩ ∧
        .index (i + earlier.length) :: inner = steps := by
  constructor
  · intro h
    induction items generalizing i with
    | nil => cases h
    | cons item items ih =>
      cases hitem : read item with
      | error misreading =>
        rw [readEach, hitem] at h
        cases h
        exact ⟨[], item, items, misreading.steps, rfl, by simp, hitem, rfl⟩
      | ok a =>
        obtain ⟨earlier, own, later, inner, rfl, hearlier, hown, rfl⟩ :=
          ih ((readEach_cons_eq_error_iff hitem).mp h)
        refine ⟨item :: earlier, own, later, inner, rfl,
          List.forall_mem_cons.mpr ⟨⟨a, hitem⟩, hearlier⟩, hown, ?_⟩
        rw [List.length_cons, Nat.add_right_comm, Nat.add_assoc]
  · rintro ⟨earlier, item, later, inner, rfl, hearlier, hitem, rfl⟩
    rw [readEach_append_eq_error_iff hearlier, readEach, hitem]
    rfl

/-- Only the tag of an attribute reference is read as this tag. -/
theorem readTag_eq_attributeTag_iff {tag : Json} :
    readTag tag = .ok attributeTag ↔ tag = .string attributeTag := by
  cases tag <;> simp [readTag, memberTag, attributeTag]

/-- The head of a node fails with its tag, with its annotations, or as that of a reference. -/
theorem readHead_eq_error_iff {tag annotations : Json} {m : Misreading} :
    readHead tag annotations = .error m ↔
      (readTag tag).under (.index 0) = .error m ∨
      Role.tag.Accepts tag ∧ (readAnnotations annotations).under (.index 1) = .error m ∨
      tag = .string attributeTag ∧ Role.annotations.Accepts annotations ∧
        Malformation.misplacedAttribute.here = m := by
  rw [accepts_tag_iff, accepts_annotations_iff, ← readTag_eq_attributeTag_iff, readHead]
  cases readTag tag with
  | error m => simp [Result.under]
  | ok t =>
    cases readAnnotations annotations with
    | error m => simp [Result.under]
    | ok a => by_cases h : t = attributeTag <;> simp [Result.under, h]

/-- The head of a node can be read if its parts can, except for that of a reference. -/
theorem readHead_isOk_iff {tag annotations : Json} :
    (∃ head, readHead tag annotations = .ok head) ↔
      Role.tag.Accepts tag ∧ tag ≠ .string attributeTag ∧
        Role.annotations.Accepts annotations := by
  rw [accepts_tag_iff, accepts_annotations_iff, Ne, ← readTag_eq_attributeTag_iff, readHead]
  cases readTag tag with
  | error m => simp [Result.under]
  | ok t =>
    cases readAnnotations annotations with
    | error m => simp [Result.under]
    | ok a => by_cases h : t = attributeTag <;> simp [Result.under, h]

theorem makeNode_eq_error_iff {head : String × Annotations} {selector : Option String}
    {arguments : Result (List (Argument Term))} {m : Misreading} :
    makeNode head selector arguments = .error m ↔ arguments.under (.index 2) = .error m := by
  unfold makeNode
  cases arguments.under (.index 2) <;> simp

/-- Three elements fail as a node with the head, or with the list of arguments. -/
theorem readElements_eq_error_iff {tag annotations arguments : Json} {m : Misreading} :
    readElements [tag, annotations, arguments] = .error m ↔
      readHead tag annotations = .error m ∨
      (∃ head, readHead tag annotations = .ok head) ∧
        (containerReading arguments).under (.index 2) = .error m := by
  cases arguments with
  | array arguments =>
    rw [readElements]
    cases readHead tag annotations with
    | error m' => simp
    | ok head =>
      obtain ⟨steps, malformation⟩ := m
      simp only [reduceCtorEq, Except.ok.injEq, exists_eq', true_and, false_or, containerReading]
      split
      · have hnull : argumentReading .null = .ok ⟨none, .literal .nil⟩ := rfl
        rw [makeNode_eq_error_iff, readArguments_eq]
        simp only [under_eq_error_iff, readEach_cons_eq_error_iff hnull]
      · rename_i selector rest
        have hstring : argumentReading (.string selector) =
          .ok ⟨none, .literal (.string selector)⟩ := rfl
        rw [makeNode_eq_error_iff, readArguments_eq]
        simp only [under_eq_error_iff, readEach_cons_eq_error_iff hstring]
      · rw [makeNode_eq_error_iff, readArguments_eq]
  | null | bool _ | number _ | string _ | object _ =>
    rw [readElements]
    · cases readHead tag annotations <;> simp [containerReading, Result.under]
    · simp

theorem readAnnotationMembers_append {a a' : Annotations} {front : List (String × Json)}
    (h : readAnnotationMembers a front = .ok a') (back : List (String × Json)) :
    readAnnotationMembers a (front ++ back) = readAnnotationMembers a' back := by
  induction front generalizing a with
  | nil =>
    cases h
    rfl
  | cons member front ih =>
    obtain ⟨key, value⟩ := member
    rw [List.cons_append, readAnnotationMembers]
    rw [readAnnotationMembers] at h
    cases hread : readAnnotation a key value with
    | error mismatch =>
      rw [hread] at h
      cases h
    | ok next =>
      rw [hread] at h
      exact ih h

/-- Annotations fail at the first member that cannot be read. -/
theorem readAnnotationMembers_eq_error_iff {a : Annotations} {members : List (String × Json)}
    {mismatch : Json.Mismatch} :
    readAnnotationMembers a members = .error mismatch ↔
      ∃ front key value back a', members = front ++ (key, value) :: back ∧
        readAnnotationMembers a front = .ok a' ∧ readAnnotation a' key value = .error mismatch := by
  constructor
  · intro h
    induction members generalizing a with
    | nil => cases h
    | cons member members ih =>
      obtain ⟨key, value⟩ := member
      rw [readAnnotationMembers] at h
      cases hread : readAnnotation a key value with
      | error mismatch' =>
        rw [hread] at h
        cases h
        exact ⟨[], key, value, members, a, rfl, rfl, hread⟩
      | ok next =>
        rw [hread] at h
        obtain ⟨front, key', value', back, a', rfl, hfront, hfails⟩ := ih h
        refine ⟨(key, value) :: front, key', value', back, a', rfl, ?_, hfails⟩
        rw [readAnnotationMembers, hread]
        exact hfront
  · rintro ⟨front, key, value, back, a', rfl, hfront, hfails⟩
    rw [readAnnotationMembers_append hfront, readAnnotationMembers, hfails]

theorem unexpectedKey?_eq_find? (members : List (String × Json)) :
    unexpectedKey? members =
      (members.find? fun member => ¬IsArgumentKey member.1).map Prod.fst := by
  induction members with
  | nil => rfl
  | cons member members ih =>
    obtain ⟨key, value⟩ := member
    rw [unexpectedKey?, ih]
    split
    · rename_i h
      have hkey : IsArgumentKey key := h
      rw [List.find?_cons_of_neg (by simpa using hkey)]
    · rename_i h
      have hkey : ¬IsArgumentKey key := h
      rw [List.find?_cons_of_pos (by simpa using hkey)]
      rfl

/-- The keys of an argument fail at the first that does not belong there. -/
theorem unexpectedKey?_eq_some_iff {members : List (String × Json)} {key : String} :
    unexpectedKey? members = some key ↔
      ∃ front value back, members = front ++ (key, value) :: back ∧
        (∀ member ∈ front, IsArgumentKey member.1) ∧ ¬IsArgumentKey key := by
  rw [unexpectedKey?_eq_find?, Option.map_eq_some_iff]
  simp only [List.find?_eq_some_iff_append]
  constructor
  · rintro ⟨⟨own, value⟩, ⟨hkey, front, back, rfl, hfront⟩, rfl⟩
    exact ⟨front, value, back, rfl, by simpa using hfront, by simpa using hkey⟩
  · rintro ⟨front, value, back, rfl, hfront, hkey⟩
    exact ⟨(key, value), ⟨by simpa using hkey, front, back, rfl, by simpa using hfront⟩, rfl⟩

/-! ## Errors in parts of a document -/

theorem nameReading_eq_error_iff {j : Json} {steps : List Step} {m : Malformation} :
    nameReading j = .error ⟨steps, m⟩ ↔ Offends .name j steps m := by
  constructor
  · intro h
    cases j with
    | string _ => cases h
    | null | bool _ | number _ | array _ | object _ =>
      cases h
      exact .attributeName (by simp)
  · intro h
    cases h with
    | attributeName h =>
      cases j with
      | string s => exact absurd rfl (h s)
      | null | bool _ | number _ | array _ | object _ => rfl

theorem readTag_eq_error_iff {j : Json} {steps : List Step} {m : Malformation} :
    readTag j = .error ⟨steps, m⟩ ↔ Offends .tag j steps m := by
  constructor
  · intro h
    cases j with
    | null | string _ => cases h
    | bool _ | number _ | array _ | object _ =>
      cases h
      exact .tagKind (by simp) (by simp)
  · intro h
    cases h with
    | tagKind hnull hstring =>
      cases j with
      | null => exact absurd rfl hnull
      | string s => exact absurd rfl (hstring s)
      | bool _ | number _ | array _ | object _ => rfl

theorem readAnnotations_eq_error_iff {j : Json} {steps : List Step} {m : Malformation} :
    readAnnotations j = .error ⟨steps, m⟩ ↔ Offends .annotations j steps m := by
  constructor
  · intro h
    cases j with
    | null => cases h
    | object members =>
      rw [readAnnotations] at h
      split at h
      · cases h
      · rename_i mismatch hmembers
        cases h
        obtain ⟨front, key, value, back, a, rfl, hfront, hfails⟩ :=
          readAnnotationMembers_eq_error_iff.mp hmembers
        exact .annotationField hfront hfails
    | bool _ | number _ | string _ | array _ =>
      cases h
      exact .annotationsKind (by simp) (by simp)
  · intro h
    cases h with
    | annotationsKind hnull hobject =>
      cases j with
      | null => exact absurd rfl hnull
      | object members => exact absurd rfl (hobject members)
      | bool _ | number _ | string _ | array _ => rfl
    | annotationField hfront h =>
      rw [readAnnotations, readAnnotationMembers_eq_error_iff.mpr ⟨_, _, _, _, _, rfl, hfront, h⟩]
      rfl

/-- The object of an argument fails with a key, a missing value, the label, or the value. -/
theorem readLabeled_eq_error_iff {members : List (String × Json)} {m : Misreading} :
    argumentReading (.object members) = .error m ↔
      (∃ key, unexpectedKey? members = some key ∧ (Malformation.unexpectedKey key).here = m) ∨
      unexpectedKey? members = none ∧
        (Table.lookup? "value" members = none ∧ Malformation.noValue.here = m ∨
        ∃ value, Table.lookup? "value" members = some value ∧
          (readLabel (Table.lookup? "label" members) = .error m ∨
          (∃ label, readLabel (Table.lookup? "label" members) = .ok label) ∧
            (readTerm value).under .value = .error m)) := by
  rw [argumentReading, readValueMember?_eq]
  unfold readLabeled
  cases unexpectedKey? members with
  | some key => simp
  | none =>
    cases Table.lookup? "value" members with
    | none => simp
    | some value =>
      simp only [Option.map_some, reduceCtorEq, Option.some.injEq, exists_eq_left', false_and,
        exists_false, false_or, true_and]
      cases readLabel (Table.lookup? "label" members) with
      | error m' => simp
      | ok label => cases readTerm value <;> simp [Result.under]

theorem readLabel_eq_error_iff {found : Option Json} {m : Misreading} :
    readLabel found = .error m ↔
      ∃ label, found = some label ∧ label ≠ .null ∧ (∀ s, label ≠ .string s) ∧
        (Malformation.labelKind label.kind).here = m := by
  unfold readLabel
  split
  · simp
  · simp
  · simp
  · rename_i label hnull hstring
    simp only [Except.error.injEq, Option.some.injEq, exists_eq_left']
    exact ⟨fun h => ⟨hnull, hstring, h⟩, fun h => h.2.2⟩

/-- An attribute reference fails with its annotations or with its name. -/
theorem readTerm_attribute_eq_error_iff {annotations name : Json} {m : Misreading} :
    readTerm (.array [.string attributeTag, annotations, name]) = .error m ↔
      (readAnnotations annotations).under (.index 1) = .error m ∨
      Role.annotations.Accepts annotations ∧ (nameReading name).under (.index 2) = .error m := by
  rw [accepts_annotations_iff, readTerm, readAttribute?, if_pos rfl]
  cases readAnnotations annotations with
  | error m' => simp [Result.under]
  | ok a => cases name <;> simp [Result.under, nameReading]

/-- A list with the outline of a node fails as a node. -/
theorem readTerm_call_eq_error_iff {elements : List Json} {m : Misreading}
    (hattribute : ¬AttributeOutline elements) (hnode : NodeOutline elements) :
    readTerm (.array elements) = .error m ↔ readNode (.array elements) = .error m := by
  rw [readTerm, readAttribute?_of_not_outline hattribute]
  simp only [isNodeShaped_iff.mpr hnode, if_true, map_eq_error_iff, readNode]

/-- Any other list fails at the first item that cannot be read. -/
theorem readTerm_items_eq_error_iff {items : List Json} {m : Misreading}
    (hattribute : ¬AttributeOutline items) (hnode : ¬NodeOutline items) :
    readTerm (.array items) = .error m ↔ readEach readTerm 0 items = .error m := by
  have hshaped : isNodeShaped items = false :=
    Bool.eq_false_iff.mpr fun h => hnode (isNodeShaped_iff.mp h)
  rw [readTerm, readAttribute?_of_not_outline hattribute]
  simp only [hshaped, Bool.false_eq_true, if_false, map_eq_error_iff, readItems_eq]

/-- A value that is no object fails as an argument if it fails as a term. -/
theorem argumentReading_eq_error_iff {value : Json} (h : ∀ members, value ≠ .object members)
    {m : Misreading} : argumentReading value = .error m ↔ readTerm value = .error m := by
  cases value with
  | object members => exact absurd rfl (h members)
  | null | bool _ | number _ | string _ | array _ =>
    rw [argumentReading, readBare, map_eq_error_iff]
    exact h

theorem readNode_length_eq {elements : List Json} (h : elements.length ≠ 3) :
    readNode (.array elements) =
      .error (Malformation.nodeLength elements.length).here := by
  rw [readNode, readElements]
  · rintro tag annotations arguments rfl
    exact h rfl
  · rintro tag annotations other rfl
    exact h rfl

/-! ## What offends is reported -/

/-- **What offends is what the reader reports.** -/
theorem Offends.read {role : Role} {j : Json} {steps : List Step} {m : Malformation}
    (h : Offends role j steps m) : role.read j = .error ⟨steps, m⟩ := by
  induction h with
  | @notNode j h =>
    cases j with
    | array elements => exact absurd rfl (h elements)
    | null | bool _ | number _ | string _ | object _ => rfl
  | nodeLength h => exact readNode_length_eq h
  | inTag h ih =>
    have htag := under_of_eq_error (.index 0) ih
    exact readElements_eq_error_iff.mpr (.inl (readHead_eq_error_iff.mpr (.inl htag)))
  | inAnnotations htag h ih =>
    have hannotations := under_of_eq_error (.index 1) ih
    exact readElements_eq_error_iff.mpr
      (.inl (readHead_eq_error_iff.mpr (.inr (.inl ⟨htag, hannotations⟩))))
  | misplaced hannotations =>
    exact readElements_eq_error_iff.mpr
      (.inl (readHead_eq_error_iff.mpr (.inr (.inr ⟨rfl, hannotations, rfl⟩))))
  | inArguments htag hreference hannotations h ih =>
    have hhead := readHead_isOk_iff.mpr ⟨htag, hreference, hannotations⟩
    exact readElements_eq_error_iff.mpr (.inr ⟨hhead, under_of_eq_error (.index 2) ih⟩)
  | tagKind hnull hstring => exact readTag_eq_error_iff.mpr (.tagKind hnull hstring)
  | annotationsKind hnull hobject =>
    exact readAnnotations_eq_error_iff.mpr (.annotationsKind hnull hobject)
  | annotationField hfront h => exact readAnnotations_eq_error_iff.mpr (.annotationField hfront h)
  | @noArguments j h =>
    cases j with
    | array items => exact absurd rfl (h items)
    | null | bool _ | number _ | string _ | object _ => rfl
  | inArgument hearlier h ih =>
    exact readEach_eq_error_iff.mpr ⟨_, _, _, _, rfl, hearlier, ih, by rw [Nat.zero_add]⟩
  | unexpectedKey hfront h =>
    refine readLabeled_eq_error_iff.mpr (.inl ⟨_, ?_, rfl⟩)
    exact unexpectedKey?_eq_some_iff.mpr ⟨_, _, _, rfl, hfront, h⟩
  | noValue hkeys h =>
    exact readLabeled_eq_error_iff.mpr (.inr ⟨unexpectedKey?_eq_none_iff.mpr hkeys, .inl ⟨h, rfl⟩⟩)
  | labelKind hkeys hvalue hlabel hnull hstring =>
    have hfails := readLabel_eq_error_iff.mpr ⟨_, hlabel, hnull, hstring, rfl⟩
    exact readLabeled_eq_error_iff.mpr
      (.inr ⟨unexpectedKey?_eq_none_iff.mpr hkeys, .inr ⟨_, hvalue, .inl hfails⟩⟩)
  | inValue hkeys hvalue hlabel h ih =>
    have hfails := under_of_eq_error .value ih
    exact readLabeled_eq_error_iff.mpr (.inr ⟨unexpectedKey?_eq_none_iff.mpr hkeys,
      .inr ⟨_, hvalue, .inr ⟨⟨_, readLabel_eq_ok_iff.mpr hlabel⟩, hfails⟩⟩⟩)
  | bare hobject h ih => exact (argumentReading_eq_error_iff hobject).mpr ih
  | bareObject => rfl
  | inReference h ih =>
    exact readTerm_attribute_eq_error_iff.mpr (.inl (under_of_eq_error (.index 1) ih))
  | inName hannotations h ih =>
    exact readTerm_attribute_eq_error_iff.mpr
      (.inr ⟨hannotations, under_of_eq_error (.index 2) ih⟩)
  | call hattribute hnode h ih => exact (readTerm_call_eq_error_iff hattribute hnode).mpr ih
  | inItem hattribute hnode hitems hearlier h ih =>
    exact (readTerm_items_eq_error_iff hattribute hnode).mpr
      (readEach_eq_error_iff.mpr ⟨_, _, _, _, hitems, hearlier, ih, by rw [Nat.zero_add]⟩)
  | attributeName h => exact nameReading_eq_error_iff.mpr (.attributeName h)

/-! ## What is reported offends -/

/-- What is reported of a value offends: as a term, as an argument, and as the list of arguments of
a node. -/
structure Blamed (j : Json) : Prop where
  term : ∀ steps m, readTerm j = .error ⟨steps, m⟩ → Offends .term j steps m
  argument : ∀ steps m, argumentReading j = .error ⟨steps, m⟩ → Offends .argument j steps m
  arguments : ∀ steps m, containerReading j = .error ⟨steps, m⟩ → Offends .arguments j steps m

theorem offends_of_containerReading {items : List Json}
    (hitems : ∀ item ∈ items, ∀ steps m, argumentReading item = .error ⟨steps, m⟩ →
      Offends .argument item steps m) {steps : List Step} {m : Malformation}
    (h : containerReading (.array items) = .error ⟨steps, m⟩) :
    Offends .arguments (.array items) steps m := by
  obtain ⟨earlier, item, later, inner, rfl, hearlier, hitem, rfl⟩ := readEach_eq_error_iff.mp h
  rw [Nat.zero_add]
  exact .inArgument hearlier (hitems item (by simp) inner m hitem)

theorem offends_of_readNode {elements : List Json}
    (helements : ∀ element ∈ elements, Blamed element) {steps : List Step} {m : Malformation}
    (h : readNode (.array elements) = .error ⟨steps, m⟩) :
    Offends .node (.array elements) steps m := by
  by_cases hlength : elements.length = 3
  · obtain ⟨tag, annotations, arguments, rfl⟩ := List.length_eq_three.mp hlength
    rcases readElements_eq_error_iff.mp h with hhead | ⟨hhead, harguments⟩
    · rcases readHead_eq_error_iff.mp hhead with htag | ⟨htag, hannotations⟩ |
        ⟨rfl, hannotations, hmisplaced⟩
      · obtain ⟨inner, hinner, rfl⟩ := under_eq_error_iff.mp htag
        exact .inTag (readTag_eq_error_iff.mp hinner)
      · obtain ⟨inner, hinner, rfl⟩ := under_eq_error_iff.mp hannotations
        exact .inAnnotations htag (readAnnotations_eq_error_iff.mp hinner)
      · cases hmisplaced
        exact .misplaced hannotations
    · obtain ⟨htag, hreference, hannotations⟩ := readHead_isOk_iff.mp hhead
      obtain ⟨inner, hinner, rfl⟩ := under_eq_error_iff.mp harguments
      exact .inArguments htag hreference hannotations
        ((helements arguments (by simp)).arguments inner m hinner)
  · rw [readNode_length_eq hlength] at h
    cases h
    exact .nodeLength hlength

theorem offends_of_readTerm {items : List Json} (hitems : ∀ item ∈ items, Blamed item)
    {steps : List Step} {m : Malformation} (h : readTerm (.array items) = .error ⟨steps, m⟩) :
    Offends .term (.array items) steps m := by
  by_cases hattribute : AttributeOutline items
  · obtain ⟨annotations, name, rfl⟩ := hattribute
    rcases readTerm_attribute_eq_error_iff.mp h with hannotations | ⟨hannotations, hname⟩
    · obtain ⟨inner, hinner, rfl⟩ := under_eq_error_iff.mp hannotations
      exact .inReference (readAnnotations_eq_error_iff.mp hinner)
    · obtain ⟨inner, hinner, rfl⟩ := under_eq_error_iff.mp hname
      exact .inName hannotations (nameReading_eq_error_iff.mp hinner)
  · by_cases hnode : NodeOutline items
    · exact .call hattribute hnode
        (offends_of_readNode hitems ((readTerm_call_eq_error_iff hattribute hnode).mp h))
    · obtain ⟨earlier, item, later, inner, rfl, hearlier, hitem, rfl⟩ :=
        readEach_eq_error_iff.mp ((readTerm_items_eq_error_iff hattribute hnode).mp h)
      rw [Nat.zero_add]
      exact .inItem hattribute hnode rfl hearlier ((hitems item (by simp)).term inner m hitem)

theorem offends_of_readLabeled {members : List (String × Json)}
    (hmembers : ∀ member ∈ members, Blamed member.2) {steps : List Step} {m : Malformation}
    (h : argumentReading (.object members) = .error ⟨steps, m⟩) :
    Offends .argument (.object members) steps m := by
  rcases readLabeled_eq_error_iff.mp h with ⟨key, hkey, hm⟩ | ⟨hkeys, hrest⟩
  · cases hm
    obtain ⟨front, value, back, rfl, hfront, hfails⟩ := unexpectedKey?_eq_some_iff.mp hkey
    exact .unexpectedKey hfront hfails
  · have hkeys' := unexpectedKey?_eq_none_iff.mp hkeys
    rcases hrest with ⟨hnone, hm⟩ | ⟨value, hvalue, hlabel | ⟨⟨label, hlabel⟩, hfails⟩⟩
    · cases hm
      exact .noValue hkeys' hnone
    · obtain ⟨label, hfound, hnull, hstring, hm⟩ := readLabel_eq_error_iff.mp hlabel
      cases hm
      exact .labelKind hkeys' hvalue hfound hnull hstring
    · obtain ⟨inner, hinner, rfl⟩ := under_eq_error_iff.mp hfails
      exact .inValue hkeys' hvalue (readLabel_eq_ok_iff.mp hlabel)
        ((hmembers _ (mem_of_lookup? hvalue)).term inner m hinner)

/-- **What the reader reports offends.** -/
theorem blamed (j : Json) : Blamed j := by
  induction j with
  | null | bool _ | number _ | string _ =>
    refine ⟨nofun, nofun, fun steps m h => ?_⟩
    cases h
    exact .noArguments nofun
  | array items ih =>
    have harray : ∀ members, Json.array items ≠ .object members := nofun
    refine ⟨fun steps m h => offends_of_readTerm ih h, fun steps m h => ?_, fun steps m h => ?_⟩
    · exact .bare harray (offends_of_readTerm ih ((argumentReading_eq_error_iff harray).mp h))
    · exact offends_of_containerReading (fun item hitem => (ih item hitem).argument) h
  | object members ih =>
    refine ⟨fun steps m h => ?_, fun steps m h => offends_of_readLabeled ih h, fun steps m h => ?_⟩
    · cases h
      exact .bareObject
    · cases h
      exact .noArguments nofun

/-- **The reader reports what offends.** -/
theorem offends_iff {role : Role} {j : Json} {steps : List Step} {m : Malformation} :
    role.read j = .error ⟨steps, m⟩ ↔ Offends role j steps m := by
  refine ⟨fun h => ?_, Offends.read⟩
  cases role with
  | node =>
    cases j with
    | array elements => exact offends_of_readNode (fun element _ => blamed element) h
    | null | bool _ | number _ | string _ | object _ =>
      cases h
      exact .notNode nofun
  | tag => exact readTag_eq_error_iff.mp h
  | annotations => exact readAnnotations_eq_error_iff.mp h
  | arguments => exact (blamed j).arguments steps m h
  | argument => exact (blamed j).argument steps m h
  | term => exact (blamed j).term steps m h
  | name => exact nameReading_eq_error_iff.mp h

/-! ## Steps -/

/-- A step to what offends leads to a part that offends by itself. -/
theorem Offends.step {role : Role} {j : Json} {step : Step} {steps : List Step} {m : Malformation}
    (h : Offends role j (step :: steps) m) :
    ∃ role' value, j.step? step = some value ∧ Offends role' value steps m := by
  generalize hall : step :: steps = all at h
  induction h with
  | notNode _ | nodeLength _ | misplaced _ | tagKind _ _ | annotationsKind _ _
  | annotationField _ _ | noArguments _ | unexpectedKey _ _ | noValue _ _
  | labelKind _ _ _ _ _ | bareObject | attributeName _ => cases hall
  | inTag h _ | inAnnotations _ h _ | inArguments _ _ _ h _ | inReference h _ | inName _ h _ =>
    cases hall
    exact ⟨_, _, rfl, h⟩
  | inArgument _ h _ =>
    cases hall
    exact ⟨_, _, by simp [Json.step?], h⟩
  | inItem _ _ hitems _ h _ =>
    cases hall
    exact ⟨_, _, by simp [Json.step?, hitems], h⟩
  | inValue _ hvalue _ h _ =>
    cases hall
    exact ⟨_, _, hvalue, h⟩
  | bare _ _ ih | call _ _ _ ih => exact ih hall

/-- **Some of the steps to what offends lead to a part that offends by itself.** -/
theorem Offends.split {role : Role} {j : Json} {front back : List Step} {m : Malformation}
    (h : Offends role j (front ++ back) m) :
    ∃ role' value, j.follow? front = some value ∧ Offends role' value back m := by
  induction front generalizing role j with
  | nil => exact ⟨role, j, rfl, h⟩
  | cons step front ih =>
    obtain ⟨role', value, hstep, hvalue⟩ := h.step
    obtain ⟨role'', part, hfollow, hpart⟩ := ih hvalue
    exact ⟨role'', part, by rw [Json.follow?, hstep]; exact hfollow, hpart⟩

/-- Where the steps enter a list of arguments, or a list that is neither a node nor an attribute
reference, the items before can be read. -/
def ClearBefore (role : Role) (j : Json) (steps : List Step) : Prop :=
  ∀ items i rest, j = .array items → steps = .index i :: rest →
    (role = .arguments → ∀ a ∈ items.take i, Role.argument.Accepts a) ∧
    (role = .term ∨ role = .argument → ¬AttributeOutline items → ¬NodeOutline items →
      ∀ t ∈ items.take i, Role.term.Accepts t)

theorem Offends.accepts_items {items : List Json} {i : Nat} {rest : List Step} {m : Malformation}
    (h : Offends .term (.array items) (.index i :: rest) m) (hattribute : ¬AttributeOutline items)
    (hnode : ¬NodeOutline items) : ∀ t ∈ items.take i, Role.term.Accepts t := by
  cases h with
  | inReference _ | inName _ _ => exact absurd ⟨_, _, rfl⟩ hattribute
  | call _ hcall _ => exact absurd hcall hnode
  | inItem _ _ hitems hearlier _ =>
    rw [hitems, List.take_left]
    exact hearlier

theorem Offends.clearBefore {role : Role} {j : Json} {steps : List Step} {m : Malformation}
    (h : Offends role j steps m) : ClearBefore role j steps := by
  rintro items i rest rfl rfl
  refine ⟨?_, ?_⟩
  · rintro rfl
    cases h with
    | inArgument hearlier _ =>
      rw [List.take_left]
      exact hearlier
  · rintro (rfl | rfl)
    · exact h.accepts_items
    · cases h with
      | bare _ h => exact h.accepts_items

/-! ## Paths -/

/-- What comes of reading a value as a part of a document, at whatever path.  The value is read as a
tree, and nothing in it offends; or the error has the path of the value followed by the steps to the
first element that offends.  The start of these steps, however far, leads to a part of the value
that offends with the rest of the steps, and behind nothing that offends. -/
inductive Settles (role : Role) (j : Json) (readAt : String → Except WireError role.Tree) : Prop
  | tree (tree : role.Tree) (hread : ∀ path, readAt path = .ok tree)
      (hnone : ∀ steps m, ¬Offends role j steps m) : Settles role j readAt
  | offence (steps : List Step) (m : Malformation)
      (hread : ∀ path, readAt path = .error (.malformed (pathText path steps) m))
      (honly : ∀ steps' m', Offends role j steps' m' ↔ steps' = steps ∧ m' = m)
      (hsteps : ∀ front back, steps = front ++ back →
        ∃ role' value, j.follow? front = some value ∧ Offends role' value back m ∧
          ClearBefore role' value back) : Settles role j readAt

theorem settles_read (role : Role) (j : Json) :
    Settles role j fun path => (role.read j).at path := by
  cases hread : role.read j with
  | ok tree =>
    refine .tree tree (fun _ => rfl) fun steps m hoffends => ?_
    rw [hoffends.read] at hread
    cases hread
  | error misreading =>
    obtain ⟨steps, m⟩ := misreading
    have hoffends : Offends role j steps m := offends_iff.mp hread
    refine .offence steps m (fun _ => rfl) (fun steps' m' => ⟨fun h => ?_, ?_⟩) ?_
    · cases hread.symm.trans h.read
      exact ⟨rfl, rfl⟩
    · rintro ⟨rfl, rfl⟩
      exact hoffends
    · rintro front back rfl
      obtain ⟨role', value, hfollow, hvalue⟩ := hoffends.split
      exact ⟨role', value, hfollow, hvalue, hvalue.clearBefore⟩

end Wire

open Wire

/-- **The path of an error denotes the first element that offends.**  A node or a term is read at
every path as the same tree, or with the path followed by the same steps and the same error.  The
steps lead into the value, everything read before the element they lead to is in order, and it makes
no difference whether the path is completed in the end or handed down. -/
theorem path_of_first_offence (j : Json) :
    Settles .node j (fun path => readNodeAt path j) ∧
    Settles .term j (fun path => (readTerm j).at path) ∧
    ∀ path, nodeAt path j = readNodeAt path j ∧ termAt path j = (readTerm j).at path := by
  refine ⟨?_, settles_read .term j, fun path => ⟨?_, termAt_eq path j⟩⟩
  · simp only [readNodeAt_eq]
    exact settles_read .node j
  · rw [nodeAt_eq, readNodeAt_eq]

/-- An object without a value, as the second item of a list that is the value of an argument of a
node that is an argument behind a selector. -/
theorem path_of_first_offence_solid :
    let bogus : Json := .object [("bogus", .number (.natural 1))]
    let stops : Json := .object [("label", .string "stops"), ("value", .array [.null, bogus])]
    let gradient : Json := .array [.null, .null, .array [stops]]
    let j : Json := .array [.null, .null, .array [.string "solid", gradient]]
    let steps : List Step := [.index 2, .index 1, .index 2, .index 0, .value, .index 1]
    pathText "$" steps = "$[2][1][2][0].value[1]" ∧ j.follow? steps = some bogus ∧
      ∀ path, nodeAt path j = .error (.malformed (pathText path steps) .bareObject) := by
  intro bogus stops gradient j steps
  have hoffends : Offends .node j steps .bareObject := offends_iff.mp rfl
  obtain ⟨hsettles, -, hsame⟩ := path_of_first_offence j
  cases hsettles with
  | tree _ _ hnone => exact absurd hoffends (hnone _ _)
  | offence steps' m hread honly _ =>
    obtain ⟨rfl, rfl⟩ := (honly _ _).mp hoffends
    exact ⟨by decide, rfl, fun path => (hsame path).1.trans (hread path)⟩

end DeferredStyle
