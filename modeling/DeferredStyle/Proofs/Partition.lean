import DeferredStyle.Proofs.Provenance
import DeferredStyle.Proofs.Rereading
import DeferredStyle.Stylesheet.Basic
import DeferredStyle.Vocabulary.Standard

/-!
# What a stylesheet keeps of its document

A document is read only as a whole: the first class or item that is malformed makes it unreadable,
whatever else could not be decoded.  Of a document that can be read, every modifier of every class
is accounted for once: it is kept, as the tree it is decoded to by itself, or dropped, with the
failures it has by itself.

* `Readable`, `FirstOffence` — documents that can be read, and what is wrong with others.
* `readMembers_eq_ok_iff`, `readMembers_eq_error_iff` — the reader computes exactly this.
* `ClassParts`, `Partition` — what becomes of the modifiers of a class and of a document.
* `partition_of_reads` — the stylesheet and the diagnostics of a document.
* `parse_partitions` — parsing, and what two documents have to do with each other.
-/

set_option autoImplicit false

namespace DeferredStyle

universe u

/-! ## Documents -/

/-- The classes of a parsed document stand in increasing order of their names. -/
theorem Json.increasing_of_parse {text : List UInt8} {members : List (String × Json)}
    (h : Json.parse text = .ok (.object members)) : Increasing members := by
  cases Json.valid_of_parse h with
  | object hkeys _ => exact hkeys

/-- The item can be read as a node. -/
def IsReadable (json : Json) : Prop :=
  ∃ node, Wire.readNode json = .ok node

/-- The class is a list of items that can be read. -/
def IsReadableClass (json : Json) : Prop :=
  ∃ items, json = .array items ∧ ∀ item ∈ items, IsReadable item

/-- All classes can be read. -/
def Readable (document : List (String × Json)) : Prop :=
  ∀ entry ∈ document, IsReadableClass entry.2

/-- What is wrong with a class: it is no list, or one of its items is the first that is no node. -/
inductive ClassOffence (className : String) : Json → WireError → Prop
  | notList {json : Json} (hjson : ∀ items, json ≠ .array items) :
      ClassOffence className json (.malformed (classPath className) .notModifierList)
  | notNode {earlier later : List Json} {json : Json} {m : Misreading}
      (hearlier : ∀ item ∈ earlier, IsReadable item) (hjson : Wire.readNode json = .error m) :
      ClassOffence className (.array (earlier ++ json :: later))
        (m.at (itemPath (classPath className) earlier.length))

/-- What is wrong with a document: its first class that cannot be read. -/
inductive FirstOffence : List (String × Json) → WireError → Prop
  | intro {before after : List (String × Json)} {className : String} {json : Json} {e : WireError}
      (hbefore : Readable before) (hjson : ClassOffence className json e) :
      FirstOffence (before ++ (className, json) :: after) e

/-! ## Reading -/

/-- Behind members that `P` holds of stands one that `Q` holds of, together with its place. -/
def FirstAt {α : Type u} (P : α → Prop) (Q : Nat → α → Prop) (i : Nat) (members : List α) : Prop :=
  ∃ before member after, members = before ++ member :: after ∧ (∀ m ∈ before, P m) ∧
    Q (i + before.length) member

section FirstAt

variable {α : Type u} {P : α → Prop} {Q : Nat → α → Prop} {i : Nat}

theorem not_firstAt_nil : ¬FirstAt P Q i [] := by
  rintro ⟨before, member, after, heq, -⟩
  simp at heq

theorem firstAt_cons {member : α} {members : List α} :
    FirstAt P Q i (member :: members) ↔ Q i member ∨ P member ∧ FirstAt P Q (i + 1) members := by
  constructor
  · rintro ⟨before, first, after, heq, hbefore, hfirst⟩
    cases before with
    | nil =>
      cases heq
      exact .inl hfirst
    | cons m before =>
      cases heq
      obtain ⟨hm, hbefore⟩ := List.forall_mem_cons.mp hbefore
      refine .inr ⟨hm, before, first, after, rfl, hbefore, ?_⟩
      rwa [List.length_cons, Nat.add_comm before.length, ← Nat.add_assoc] at hfirst
  · rintro (hfirst | ⟨hm, before, first, after, rfl, hbefore, hfirst⟩)
    · exact ⟨[], member, members, rfl, nofun, hfirst⟩
    · refine ⟨member :: before, first, after, rfl, List.forall_mem_cons.mpr ⟨hm, hbefore⟩, ?_⟩
      rwa [List.length_cons, Nat.add_comm before.length, ← Nat.add_assoc]

end FirstAt

/-- The items of a list and their nodes. -/
abbrev ReadsEach : List Json → List Node → Prop :=
  List.Forall₂ fun json node => Wire.readNode json = .ok node

/-- A class of a document and its nodes. -/
def ReadsClass (entry : String × Json) (read : String × List Node) : Prop :=
  entry.1 = read.1 ∧ ∃ items, entry.2 = .array items ∧ ReadsEach items read.2

theorem readClassNodes_eq_ok_iff {path : String} {i : Nat} {jsons : List Json}
    {nodes : List Node} : readClassNodes path i jsons = .ok nodes ↔ ReadsEach jsons nodes := by
  induction jsons generalizing i nodes with
  | nil => simp [readClassNodes, eq_comm]
  | cons json jsons ih =>
    rw [readClassNodes, readNodeAt, ReadsEach, List.forall₂_cons_left_iff]
    cases Wire.readNode json with
    | error m => simp
    | ok node =>
      simp only [map_eq_ok_iff, ih, Except.ok.injEq]
      constructor
      · rintro ⟨rest, hrest, rfl⟩
        exact ⟨node, rest, rfl, hrest, rfl⟩
      · rintro ⟨_, rest, rfl, hrest, rfl⟩
        exact ⟨rest, hrest, rfl⟩

theorem readClassNodes_eq_error_iff {path : String} {i : Nat} {jsons : List Json} {e : WireError} :
    readClassNodes path i jsons = .error e ↔
      FirstAt IsReadable
        (fun index json => ∃ m, Wire.readNode json = .error m ∧ m.at (itemPath path index) = e) i
        jsons := by
  induction jsons generalizing i with
  | nil => simp [readClassNodes, not_firstAt_nil]
  | cons json jsons ih =>
    rw [readClassNodes, readNodeAt, firstAt_cons, IsReadable]
    cases Wire.readNode json with
    | error m => simp
    | ok node => simp [map_eq_error_iff, ih]

theorem readClass_eq_ok_iff {className : String} {json : Json} {nodes : List Node} :
    readClass className json = .ok nodes ↔
      ∃ items, json = .array items ∧ ReadsEach items nodes := by
  cases json with
  | array items => simp [readClass, readClassNodes_eq_ok_iff]
  | null | bool | number | string | object => simp [readClass]

theorem readsClass_iff {className : String} {json : Json} {read : String × List Node} :
    ReadsClass (className, json) read ↔
      className = read.1 ∧ readClass className json = .ok read.2 := by
  rw [readClass_eq_ok_iff]
  rfl

theorem readClass_eq_error_iff {className : String} {json : Json} {e : WireError} :
    readClass className json = .error e ↔ ClassOffence className json e := by
  constructor
  · intro h
    cases json with
    | array items =>
      obtain ⟨earlier, item, later, rfl, hearlier, m, hm, rfl⟩ :=
        readClassNodes_eq_error_iff.mp h
      rw [Nat.zero_add]
      exact .notNode hearlier hm
    | null | bool | number | string | object =>
      cases h
      exact .notList nofun
  · intro h
    cases h with
    | notList hjson =>
      cases json with
      | array items => exact absurd rfl (hjson items)
      | null | bool | number | string | object => rfl
    | notNode hearlier hm =>
      rename_i earlier later item m
      refine readClassNodes_eq_error_iff.mpr ⟨earlier, item, later, rfl, hearlier, m, hm, ?_⟩
      rw [Nat.zero_add]

theorem isReadableClass_iff {className : String} {json : Json} :
    IsReadableClass json ↔ ∃ nodes, readClass className json = .ok nodes := by
  constructor
  · rintro ⟨items, hlist, hitems⟩
    cases hread : readClass className json with
    | ok nodes => exact ⟨nodes, rfl⟩
    | error e =>
      cases readClass_eq_error_iff.mp hread with
      | notList hjson => exact absurd hlist (hjson items)
      | notNode _ hm =>
        rename_i earlier item m later
        cases hlist
        obtain ⟨node, hnode⟩ := hitems item (by simp)
        rw [hm] at hnode
        cases hnode
  · rintro ⟨nodes, hread⟩
    obtain ⟨items, rfl, hnodes⟩ := readClass_eq_ok_iff.mp hread
    refine ⟨items, rfl, fun item hitem => ?_⟩
    obtain ⟨node, -, hnode⟩ := exists_left_of_forall₂ hnodes.flip hitem
    exact ⟨node, hnode⟩

/-- **The reader reads class by class.** -/
theorem readMembers_eq_ok_iff {document : List (String × Json)}
    {classes : List (String × List Node)} :
    readMembers document = .ok classes ↔ List.Forall₂ ReadsClass document classes := by
  induction document generalizing classes with
  | nil => simp [readMembers, eq_comm]
  | cons entry document ih =>
    obtain ⟨className, json⟩ := entry
    rw [readMembers, List.forall₂_cons_left_iff]
    simp only [readsClass_iff]
    cases readClass className json with
    | error e => simp
    | ok nodes =>
      simp only [map_eq_ok_iff, ih]
      constructor
      · rintro ⟨rest, hrest, rfl⟩
        exact ⟨(className, nodes), rest, ⟨rfl, rfl⟩, hrest, rfl⟩
      · rintro ⟨⟨name, read⟩, rest, ⟨rfl, hread⟩, hrest, rfl⟩
        cases hread
        exact ⟨rest, hrest, rfl⟩

/-- **The reader fails with the first offence.** -/
theorem readMembers_eq_error_iff {document : List (String × Json)} {e : WireError} :
    readMembers document = .error e ↔ FirstOffence document e := by
  have hfirst : ∀ i, readMembers document = .error e ↔
      FirstAt (fun entry => IsReadableClass entry.2)
        (fun _ entry => ClassOffence entry.1 entry.2 e) i document := by
    induction document with
    | nil => simp [readMembers, not_firstAt_nil]
    | cons entry document ih =>
      intro i
      obtain ⟨className, json⟩ := entry
      rw [readMembers, firstAt_cons, ← readClass_eq_error_iff, isReadableClass_iff, ← ih (i + 1)]
      cases readClass className json with
      | error e' => simp
      | ok nodes => simp [map_eq_error_iff]
  rw [hfirst 0]
  constructor
  · rintro ⟨before, ⟨className, json⟩, after, rfl, hbefore, hjson⟩
    exact .intro hbefore hjson
  · rintro ⟨hbefore, hjson⟩
    exact ⟨_, _, _, rfl, hbefore, hjson⟩

/-- A class of a document is among those that were read. -/
theorem exists_read_of_mem {document : List (String × Json)} {classes : List (String × List Node)}
    (h : List.Forall₂ ReadsClass document classes) {className : String} {json : Json}
    (hmem : (className, json) ∈ document) :
    ∃ nodes, (className, nodes) ∈ classes ∧ readClass className json = .ok nodes := by
  obtain ⟨⟨name, nodes⟩, hclass, hread⟩ := exists_left_of_forall₂ h.flip hmem
  obtain ⟨rfl, hnodes⟩ := readsClass_iff.mp hread
  exact ⟨nodes, hclass, hnodes⟩

theorem readable_iff {document : List (String × Json)} :
    Readable document ↔ ∃ classes, readMembers document = .ok classes := by
  constructor
  · intro h
    cases hread : readMembers document with
    | ok classes => exact ⟨classes, rfl⟩
    | error e =>
      obtain ⟨hbefore, hjson⟩ := readMembers_eq_error_iff.mp hread
      rename_i before after className json
      obtain ⟨nodes, hnodes⟩ := isReadableClass_iff.mp (h (className, json) (by simp))
      rw [readClass_eq_error_iff.mpr hjson] at hnodes
      cases hnodes
  · rintro ⟨classes, hclasses⟩ entry hentry
    obtain ⟨nodes, -, hread⟩ := exists_read_of_mem (readMembers_eq_ok_iff.mp hclasses) hentry
    exact isReadableClass_iff.mpr ⟨nodes, hread⟩

/-! ## Decoding -/

/-- The node at a place of a list. -/
def ReadsAt (items : List Json) (index : Nat) (node : Node) : Prop :=
  ∃ json, items[index]? = some json ∧ Wire.readNode json = .ok node

theorem readsAt_iff {items : List Json} {nodes : List Node} (h : ReadsEach items nodes)
    {index : Nat} {node : Node} : ReadsAt items index node ↔ nodes[index]? = some node := by
  constructor
  · rintro ⟨json, hjson, hread⟩
    obtain ⟨node', hnode', hread'⟩ := getElem?_of_forall₂ h hjson
    rw [hread] at hread'
    cases hread'
    exact hnode'
  · intro hnode
    obtain ⟨json, hjson, hread⟩ := getElem?_of_forall₂ h.flip hnode
    exact ⟨json, hjson, hread⟩

/-- The trees of the nodes that can be decoded, with their places; the first node has the
index `i`. -/
def keptFrom (d : Decoder) (i : Nat) (nodes : List Node) : List (Nat × Resolvable) :=
  (nodes.zipIdx i).filterMap fun (node, index) =>
    (d.decodeModifier node).toOption.map fun r => (index, r)

/-- The failures of the nodes that cannot be decoded, with their places; the first node has the
index `i`. -/
def droppedFrom (d : Decoder) (i : Nat) (nodes : List Node) : List (Nat × DecodeFailures) :=
  (nodes.zipIdx i).filterMap fun (node, index) =>
    match d.decodeModifier node with
    | .ok _ => none
    | .error failures => some (index, failures)

section Decoding

variable {d : Decoder}

theorem decodedModifiers_eq (i : Nat) (nodes : List Node) :
    decodedModifiers d nodes = (keptFrom d i nodes).map Prod.snd := by
  induction nodes generalizing i with
  | nil => rfl
  | cons node nodes ih =>
    rw [decodedModifiers, keptFrom, List.zipIdx_cons, List.filterMap_cons, ih (i + 1), keptFrom]
    dsimp only
    cases d.decodeModifier node <;> rfl

theorem classDiagnostics_eq (className : String) (i : Nat) (nodes : List Node) :
    classDiagnostics d className i nodes =
      (droppedFrom d i nodes).map fun (index, failures) => ⟨className, index, failures⟩ := by
  induction nodes generalizing i with
  | nil => rfl
  | cons node nodes ih =>
    rw [classDiagnostics, droppedFrom, List.zipIdx_cons, List.filterMap_cons, ih (i + 1),
      droppedFrom]
    dsimp only
    cases d.decodeModifier node <;> rfl

theorem mem_keptFrom {nodes : List Node} {index : Nat} {r : Resolvable} :
    (index, r) ∈ keptFrom d 0 nodes ↔
      ∃ node, nodes[index]? = some node ∧ d.decodeModifier node = .ok r := by
  simp only [keptFrom, List.mem_filterMap, Prod.exists, List.mk_mem_zipIdx_iff_getElem?,
    Option.map_eq_some_iff, toOption_eq_some_iff, Prod.mk.injEq]
  constructor
  · rintro ⟨node, _, hnode, _, hdecode, rfl, rfl⟩
    exact ⟨node, hnode, hdecode⟩
  · rintro ⟨node, hnode, hdecode⟩
    exact ⟨node, index, hnode, r, hdecode, rfl, rfl⟩

theorem mem_droppedFrom {nodes : List Node} {index : Nat} {failures : DecodeFailures} :
    (index, failures) ∈ droppedFrom d 0 nodes ↔
      ∃ node, nodes[index]? = some node ∧ d.decodeModifier node = .error failures := by
  simp only [droppedFrom, List.mem_filterMap, Prod.exists, List.mk_mem_zipIdx_iff_getElem?]
  constructor
  · rintro ⟨node, i, hnode, hdecode⟩
    split at hdecode
    · cases hdecode
    · rename_i f hf
      cases hdecode
      exact ⟨node, hnode, hf⟩
  · rintro ⟨node, hnode, hdecode⟩
    exact ⟨node, index, hnode, by rw [hdecode]⟩

theorem mem_classDiagnostics {className : String} {nodes : List Node} {diagnostic : Diagnostic} :
    diagnostic ∈ classDiagnostics d className 0 nodes ↔
      diagnostic.className = className ∧
        ∃ node, nodes[diagnostic.index]? = some node ∧
          d.decodeModifier node = .error diagnostic.failures := by
  obtain ⟨name, index, failures⟩ := diagnostic
  rw [classDiagnostics_eq, List.mem_map]
  constructor
  · rintro ⟨entry, hentry, heq⟩
    cases heq
    exact ⟨rfl, mem_droppedFrom.mp hentry⟩
  · rintro ⟨rfl, hnode⟩
    exact ⟨(index, failures), mem_droppedFrom.mpr hnode, rfl⟩

/-- Every place of a list is kept or dropped, and not both. -/
theorem kept_xor_dropped {nodes : List Node} {index : Nat} (hindex : index < nodes.length) :
    Xor (∃ r, (index, r) ∈ keptFrom d 0 nodes)
      (∃ failures, (index, failures) ∈ droppedFrom d 0 nodes) := by
  simp only [mem_keptFrom, mem_droppedFrom, List.getElem?_eq_getElem hindex, Option.some.injEq,
    exists_eq_left']
  cases d.decodeModifier nodes[index] with
  | ok r => exact .inl ⟨⟨r, rfl⟩, nofun⟩
  | error failures => exact .inr ⟨⟨failures, rfl⟩, nofun⟩

/-- Places increase along a list. -/
theorem pairwise_zipIdx {α : Type u} (i : Nat) (as : List α) :
    (as.zipIdx i).Pairwise fun entry later => entry.2 < later.2 := by
  have hplaces : ((as.zipIdx i).map Prod.snd).Pairwise (· < ·) := by
    rw [List.zipIdx_map_snd]
    exact List.pairwise_lt_range'
  exact List.pairwise_map.mp hplaces

theorem pairwise_keptFrom (i : Nat) (nodes : List Node) :
    (keptFrom d i nodes).Pairwise fun entry later => entry.1 < later.1 := by
  refine List.Pairwise.filterMap _ ?_ (pairwise_zipIdx i nodes)
  intro a b hlt entry hentry later hlater
  obtain ⟨r, -, rfl⟩ := Option.map_eq_some_iff.mp hentry
  obtain ⟨r', -, rfl⟩ := Option.map_eq_some_iff.mp hlater
  exact hlt

theorem pairwise_droppedFrom (i : Nat) (nodes : List Node) :
    (droppedFrom d i nodes).Pairwise fun entry later => entry.1 < later.1 := by
  refine List.Pairwise.filterMap _ ?_ (pairwise_zipIdx i nodes)
  intro a b hlt entry hentry later hlater
  dsimp only at hentry hlater
  split at hentry <;> cases hentry
  split at hlater <;> cases hlater
  exact hlt

end Decoding

/-! ## Parts of a document -/

/-- One diagnostic stands before another in the order of classes and places. -/
def Diagnostic.Before (diagnostic later : Diagnostic) : Prop :=
  diagnostic.className < later.className ∨
    diagnostic.className = later.className ∧ diagnostic.index < later.index

/-- What becomes of the items of a class: each is kept or dropped, with what it is decoded to or
fails with by itself, and in order. -/
structure ClassParts (d : Decoder) (className : String) (items : List Json)
    (kept : List (Nat × Resolvable)) (diagnostics : List Diagnostic) : Prop where
  ordered : kept.Pairwise fun entry later => entry.1 < later.1
  mem_kept : ∀ index r, (index, r) ∈ kept ↔
    ∃ node, ReadsAt items index node ∧ d.decodeModifier node = .ok r
  mem_diagnostics : ∀ index failures, ⟨className, index, failures⟩ ∈ diagnostics ↔
    ∃ node, ReadsAt items index node ∧ d.decodeModifier node = .error failures
  either : ∀ index < items.length,
    Xor (∃ r, (index, r) ∈ kept) (∃ failures, ⟨className, index, failures⟩ ∈ diagnostics)

/-- What becomes of a document: the stylesheet has its classes with what is kept of them, and the
diagnostics are about its classes only. -/
structure Partition (d : Decoder) (document : List (String × Json)) (sheet : Stylesheet)
    (diagnostics : List Diagnostic) : Prop where
  classNames : sheet.classNames = document.map Prod.fst
  diagnosed : ∀ diagnostic ∈ diagnostics, diagnostic.className ∈ sheet.classNames
  ordered : diagnostics.Pairwise Diagnostic.Before
  parts : ∀ className items, (className, .array items) ∈ document →
    ∃ kept, sheet.class? className = some (kept.map Prod.snd) ∧
      ClassParts d className items kept diagnostics

section Parts

variable {d : Decoder} {document : List (String × Json)} {classes : List (String × List Node)}

theorem keys_eq_of_reads (h : List.Forall₂ ReadsClass document classes) :
    classes.map Prod.fst = document.map Prod.fst := by
  induction h with
  | nil => rfl
  | cons hclass _ ih => rw [List.map_cons, List.map_cons, hclass.1, ih]

theorem increasing_of_keys_eq {α β : Type} {entries : List (String × α)}
    {entries' : List (String × β)} (heq : entries'.map Prod.fst = entries.map Prod.fst)
    (h : Increasing entries) : Increasing entries' := by
  have hkeys : (entries.map Prod.fst).Pairwise (· < ·) := List.pairwise_map.mpr h
  rw [← heq] at hkeys
  exact List.pairwise_map.mp hkeys

/-- The entries of a stylesheet, one for each class that was read. -/
theorem entries_ofClasses (h : Increasing classes) :
    (Stylesheet.ofClasses d classes).classes.entries =
      classes.map fun (className, nodes) => (className, decodedModifiers d nodes) := by
  refine Table.entries_ofList (increasing_of_keys_eq ?_ h)
  rw [List.map_map]
  rfl

theorem classNames_ofClasses (h : Increasing classes) :
    (Stylesheet.ofClasses d classes).classNames = classes.map Prod.fst := by
  rw [Stylesheet.classNames, Table.keys, entries_ofClasses h, List.map_map]
  rfl

theorem class?_ofClasses (h : Increasing classes) {className : String} {nodes : List Node}
    (hclass : (className, nodes) ∈ classes) :
    (Stylesheet.ofClasses d classes).class? className = some (decodedModifiers d nodes) := by
  have hkeys := Table.nodup_keys_of_increasing (Stylesheet.ofClasses d classes).classes.increasing
  rw [Stylesheet.class?, Table.find?, lookup?_eq_some_iff_mem hkeys, entries_ofClasses h]
  exact List.mem_map.mpr ⟨_, hclass, rfl⟩

theorem mem_diagnostics {diagnostic : Diagnostic} :
    diagnostic ∈ Stylesheet.diagnostics d classes ↔
      ∃ nodes, (diagnostic.className, nodes) ∈ classes ∧
        ∃ node, nodes[diagnostic.index]? = some node ∧
          d.decodeModifier node = .error diagnostic.failures := by
  simp only [Stylesheet.diagnostics, List.mem_flatMap, Prod.exists, mem_classDiagnostics]
  constructor
  · rintro ⟨className, nodes, hclass, rfl, hnode⟩
    exact ⟨nodes, hclass, hnode⟩
  · rintro ⟨nodes, hclass, hnode⟩
    exact ⟨_, nodes, hclass, rfl, hnode⟩

/-- Diagnostics are in order: within a class by place, and across classes by name. -/
theorem pairwise_diagnostics (h : Increasing classes) :
    (Stylesheet.diagnostics d classes).Pairwise Diagnostic.Before := by
  refine List.pairwise_flatMap.mpr ⟨fun read _ => ?_, h.imp ?_⟩
  · obtain ⟨className, nodes⟩ := read
    dsimp only
    rw [classDiagnostics_eq, List.pairwise_map]
    exact (pairwise_droppedFrom 0 nodes).imp fun hlt => .inr ⟨rfl, hlt⟩
  · intro read later hlt diagnostic hdiagnostic other hother
    have hname := (mem_classDiagnostics.mp hdiagnostic).1
    have hname' := (mem_classDiagnostics.mp hother).1
    left
    rwa [hname, hname']

/-- Equal keys have equal values. -/
theorem eq_of_mem_increasing {α : Type u} {entries : List (String × α)} (h : Increasing entries)
    {key : String} {a b : α} (ha : (key, a) ∈ entries) (hb : (key, b) ∈ entries) : a = b := by
  have hkeys := Table.nodup_keys_of_increasing h
  have hlookup := (lookup?_eq_some_iff_mem hkeys).mpr ha
  rw [(lookup?_eq_some_iff_mem hkeys).mpr hb] at hlookup
  exact (Option.some.inj hlookup).symm

/-- The diagnostics about a class are about its dropped places. -/
theorem mem_diagnostics_iff_dropped (hclasses : Increasing classes) {className : String}
    {nodes : List Node} (hclass : (className, nodes) ∈ classes) {index : Nat}
    {failures : DecodeFailures} :
    ⟨className, index, failures⟩ ∈ Stylesheet.diagnostics d classes ↔
      (index, failures) ∈ droppedFrom d 0 nodes := by
  rw [mem_diagnostics, mem_droppedFrom]
  constructor
  · rintro ⟨nodes', hclass', hnode⟩
    rwa [eq_of_mem_increasing hclasses hclass' hclass] at hnode
  · exact fun hnode => ⟨nodes, hclass, hnode⟩

/-- **Every item of a class is accounted for.** -/
theorem classParts_of_reads (hclasses : Increasing classes) {className : String}
    {items : List Json} {nodes : List Node} (hclass : (className, nodes) ∈ classes)
    (hreads : ReadsEach items nodes) :
    ClassParts d className items (keptFrom d 0 nodes) (Stylesheet.diagnostics d classes) where
  ordered := pairwise_keptFrom 0 nodes
  mem_kept index r := by simp only [mem_keptFrom, readsAt_iff hreads]
  mem_diagnostics index failures := by
    simp only [mem_diagnostics_iff_dropped hclasses hclass, mem_droppedFrom, readsAt_iff hreads]
  either index hindex := by
    rw [hreads.length_eq] at hindex
    simp only [mem_diagnostics_iff_dropped hclasses hclass]
    exact kept_xor_dropped hindex

/-- **Every class of a document is accounted for.** -/
theorem partition_of_reads (hdocument : Increasing document)
    (h : List.Forall₂ ReadsClass document classes) :
    Partition d document (Stylesheet.ofClasses d classes) (Stylesheet.diagnostics d classes) := by
  have hkeys := keys_eq_of_reads h
  have hclasses : Increasing classes := increasing_of_keys_eq hkeys hdocument
  have hnames : (Stylesheet.ofClasses d classes).classNames = document.map Prod.fst := by
    rw [classNames_ofClasses hclasses, hkeys]
  refine ⟨hnames, fun diagnostic hdiagnostic => ?_, pairwise_diagnostics hclasses, ?_⟩
  · obtain ⟨nodes, hclass, -⟩ := mem_diagnostics.mp hdiagnostic
    rw [classNames_ofClasses hclasses]
    exact List.mem_map.mpr ⟨_, hclass, rfl⟩
  · intro className items hmem
    obtain ⟨nodes, hclass, hread⟩ := exists_read_of_mem h hmem
    obtain ⟨items', hitems, hreads⟩ := readClass_eq_ok_iff.mp hread
    cases hitems
    refine ⟨keptFrom d 0 nodes, ?_, classParts_of_reads hclasses hclass hreads⟩
    rw [class?_ofClasses hclasses hclass, decodedModifiers_eq 0]

end Parts

/-! ## Two documents -/

/-- The item is a node that cannot be decoded as a modifier. -/
def Undecodable (d : Decoder) (json : Json) : Prop :=
  ∃ node failures, Wire.readNode json = .ok node ∧ d.decodeModifier node = .error failures

/-- Lists that differ in undecodable items: deleted, inserted, or replaced by others. -/
inductive Patched (d : Decoder) : List Json → List Json → Prop
  | nil : Patched d [] []
  | keep {items items' : List Json} (json : Json) (h : Patched d items items') :
      Patched d (json :: items) (json :: items')
  | delete {items items' : List Json} {json : Json} (hjson : Undecodable d json)
      (h : Patched d items items') : Patched d (json :: items) items'
  | insert {items items' : List Json} {json : Json} (hjson : Undecodable d json)
      (h : Patched d items items') : Patched d items (json :: items')

/-- Classes of one name that differ in undecodable items. -/
def PatchedClass (d : Decoder) (entry entry' : String × Json) : Prop :=
  entry.1 = entry'.1 ∧ ∃ items items', entry.2 = .array items ∧ entry'.2 = .array items' ∧
    Patched d items items'

section TwoDocuments

variable {d : Decoder} {document document' : List (String × Json)}
  {classes classes' : List (String × List Node)}

theorem Patched.exists_nodes {items items' : List Json} (h : Patched d items items')
    {nodes : List Node} (hreads : ReadsEach items nodes) :
    ∃ nodes', ReadsEach items' nodes' ∧ decodedModifiers d nodes = decodedModifiers d nodes' := by
  induction h generalizing nodes with
  | nil =>
    cases hreads
    exact ⟨[], .nil, rfl⟩
  | keep json _ ih =>
    cases hreads with
    | cons hjson hrest =>
      obtain ⟨nodes', hnodes', heq⟩ := ih hrest
      exact ⟨_ :: nodes', .cons hjson hnodes', by rw [decodedModifiers, decodedModifiers, heq]⟩
  | delete hjson _ ih =>
    obtain ⟨node, failures, hread, hfails⟩ := hjson
    cases hreads with
    | cons hjson hrest =>
      cases hread.symm.trans hjson
      obtain ⟨nodes', hnodes', heq⟩ := ih hrest
      refine ⟨nodes', hnodes', ?_⟩
      rw [decodedModifiers, hfails]
      exact heq
  | insert hjson _ ih =>
    obtain ⟨node, failures, hread, hfails⟩ := hjson
    obtain ⟨nodes', hnodes', heq⟩ := ih hreads
    refine ⟨node :: nodes', .cons hread hnodes', ?_⟩
    rw [decodedModifiers, hfails]
    exact heq

/-- A patched class can be read too, and keeps the same trees. -/
theorem PatchedClass.exists_read {entry entry' : String × Json} (h : PatchedClass d entry entry')
    {read : String × List Node} (hread : ReadsClass entry read) :
    ∃ read', ReadsClass entry' read' ∧ read.1 = read'.1 ∧
      decodedModifiers d read.2 = decodedModifiers d read'.2 := by
  obtain ⟨hname, items, items', hitems, hitems', hpatched⟩ := h
  obtain ⟨hentry, items'', hitems'', hnodes⟩ := hread
  cases hitems.symm.trans hitems''
  obtain ⟨nodes', hnodes', hdecoded⟩ := hpatched.exists_nodes hnodes
  have hnames : read.1 = entry'.1 := hentry.symm.trans hname
  exact ⟨(entry'.1, nodes'), ⟨rfl, items', hitems', hnodes'⟩, hnames, hdecoded⟩

/-- A patched document can be read too, and keeps the same trees. -/
theorem exists_ofClasses_eq_of_patched (hpatched : List.Forall₂ (PatchedClass d) document document')
    (h : List.Forall₂ ReadsClass document classes) :
    ∃ classes', List.Forall₂ ReadsClass document' classes' ∧
      Stylesheet.ofClasses d classes = Stylesheet.ofClasses d classes' := by
  suffices hdecoded : ∃ classes', List.Forall₂ ReadsClass document' classes' ∧
      (classes.map fun (className, nodes) => (className, decodedModifiers d nodes)) =
        classes'.map fun (className, nodes) => (className, decodedModifiers d nodes) by
    obtain ⟨classes', hreads, heq⟩ := hdecoded
    refine ⟨classes', hreads, ?_⟩
    rw [Stylesheet.ofClasses, Stylesheet.ofClasses, heq]
  induction hpatched generalizing classes with
  | nil =>
    cases h
    exact ⟨[], .nil, rfl⟩
  | cons hclass _ ih =>
    cases h with
    | cons hread hrest =>
      obtain ⟨read', hread', hname, hdecoded⟩ := hclass.exists_read hread
      obtain ⟨classes', hclasses', heq⟩ := ih hrest
      refine ⟨read' :: classes', .cons hread' hclasses', ?_⟩
      rw [List.map_cons, List.map_cons, heq]
      dsimp only
      rw [hname, hdecoded]

/-- The diagnostics about a class are those of its own nodes. -/
theorem filter_diagnostics (hclasses : Increasing classes) {className : String}
    {nodes : List Node} (hclass : (className, nodes) ∈ classes) :
    (Stylesheet.diagnostics d classes).filter (·.className = className) =
      classDiagnostics d className 0 nodes := by
  obtain ⟨before, after, rfl⟩ := List.append_of_mem hclass
  obtain ⟨-, hafter, hbefore⟩ := List.pairwise_append.mp hclasses
  have hothers : ∀ others : List (String × List Node), (∀ read ∈ others, read.1 ≠ className) →
      (Stylesheet.diagnostics d others).filter (·.className = className) = [] := by
    intro others hne
    refine List.filter_eq_nil_iff.mpr fun diagnostic hdiagnostic => ?_
    obtain ⟨nodes', hmem, -⟩ := mem_diagnostics.mp hdiagnostic
    simpa using hne _ hmem
  have hfirst := hothers before fun read hread heq =>
    String.lt_irrefl _ (heq ▸ hbefore read hread (className, nodes) List.mem_cons_self)
  have hlast := hothers after fun read hread heq =>
    String.lt_irrefl _ (heq ▸ (List.pairwise_cons.mp hafter).1 read hread)
  have hown : (classDiagnostics d className 0 nodes).filter (·.className = className) =
      classDiagnostics d className 0 nodes :=
    List.filter_eq_self.mpr fun diagnostic hdiagnostic => by
      simpa using (mem_classDiagnostics.mp hdiagnostic).1
  have hsplit : Stylesheet.diagnostics d (before ++ (className, nodes) :: after) =
      Stylesheet.diagnostics d before ++
        (classDiagnostics d className 0 nodes ++ Stylesheet.diagnostics d after) := by
    rw [Stylesheet.diagnostics, List.flatMap_append, List.flatMap_cons]
    rfl
  rw [hsplit, List.filter_append, List.filter_append, hfirst, hlast, hown, List.append_nil]
  rfl

/-- A class means the same in every document it stands in. -/
theorem class_eq_of_reads (hdocument : Increasing document) (hdocument' : Increasing document')
    (h : List.Forall₂ ReadsClass document classes) (h' : List.Forall₂ ReadsClass document' classes')
    {className : String} {json : Json} (hmem : (className, json) ∈ document)
    (hmem' : (className, json) ∈ document') :
    (Stylesheet.ofClasses d classes).class? className =
        (Stylesheet.ofClasses d classes').class? className ∧
      (Stylesheet.diagnostics d classes).filter (·.className = className) =
        (Stylesheet.diagnostics d classes').filter (·.className = className) := by
  have hclasses : Increasing classes := increasing_of_keys_eq (keys_eq_of_reads h) hdocument
  have hclasses' : Increasing classes' := increasing_of_keys_eq (keys_eq_of_reads h') hdocument'
  obtain ⟨nodes, hclass, hread⟩ := exists_read_of_mem h hmem
  obtain ⟨nodes', hclass', hread'⟩ := exists_read_of_mem h' hmem'
  cases hread.symm.trans hread'
  constructor
  · rw [class?_ofClasses hclasses hclass, class?_ofClasses hclasses' hclass']
  · rw [filter_diagnostics hclasses hclass, filter_diagnostics hclasses' hclass']

end TwoDocuments

/-! ## Parsing -/

section Parsing

variable {d : Decoder} {text : List UInt8} {document : List (String × Json)}

theorem parse_eq (hparse : Json.parse text = .ok (.object document)) :
    Stylesheet.parse d text = (readMembers document).map fun classes =>
      (Stylesheet.ofClasses d classes, Stylesheet.diagnostics d classes) := by
  rw [Stylesheet.parse, hparse]
  rfl

theorem parse_eq_ok_iff (hparse : Json.parse text = .ok (.object document)) {sheet : Stylesheet}
    {diagnostics : List Diagnostic} :
    Stylesheet.parse d text = .ok (sheet, diagnostics) ↔
      ∃ classes, List.Forall₂ ReadsClass document classes ∧
        Stylesheet.ofClasses d classes = sheet ∧
          Stylesheet.diagnostics d classes = diagnostics := by
  simp only [parse_eq hparse, map_eq_ok_iff, readMembers_eq_ok_iff, Prod.mk.injEq]

end Parsing

/-- **Parsing loses and invents nothing.**  A document is parsed if all of it can be read, and fails
with its first offence otherwise.  If it is parsed, every item of every class is kept or dropped as
it is by itself.  So undecodable items may be deleted, inserted and replaced without a change to
what is kept, and a class means the same whatever stands beside it. -/
theorem parse_partitions (d : Decoder) (text : List UInt8) (document : List (String × Json))
    (hparse : Json.parse text = .ok (.object document)) :
    Increasing document ∧
    ((∃ result, Stylesheet.parse d text = .ok result) ↔ Readable document) ∧
    (∀ e, Stylesheet.parse d text = .error e ↔ FirstOffence document e) ∧
    (∀ sheet diagnostics, Stylesheet.parse d text = .ok (sheet, diagnostics) →
      Partition d document sheet diagnostics) ∧
    (∀ text' document' sheet diagnostics, Json.parse text' = .ok (.object document') →
      List.Forall₂ (PatchedClass d) document document' →
      Stylesheet.parse d text = .ok (sheet, diagnostics) →
      ∃ diagnostics', Stylesheet.parse d text' = .ok (sheet, diagnostics')) ∧
    ∀ text' document' className json sheet diagnostics sheet' diagnostics',
      Json.parse text' = .ok (.object document') →
      (className, json) ∈ document → (className, json) ∈ document' →
      Stylesheet.parse d text = .ok (sheet, diagnostics) →
      Stylesheet.parse d text' = .ok (sheet', diagnostics') →
      sheet.class? className = sheet'.class? className ∧
        diagnostics.filter (·.className = className) =
          diagnostics'.filter (·.className = className) := by
  have hdocument : Increasing document := Json.increasing_of_parse hparse
  refine ⟨hdocument, ?_, ?_, ?_, ?_, ?_⟩
  · rw [readable_iff, parse_eq hparse]
    cases readMembers document with
    | error e => simp [Except.map]
    | ok classes => simp [Except.map]
  · intro e
    rw [parse_eq hparse, map_eq_error_iff, readMembers_eq_error_iff]
  · intro sheet diagnostics hsheet
    obtain ⟨classes, hclasses, rfl, rfl⟩ := (parse_eq_ok_iff hparse).mp hsheet
    exact partition_of_reads hdocument hclasses
  · intro text' document' sheet diagnostics hparse' hpatched hsheet
    obtain ⟨classes, hclasses, rfl, -⟩ := (parse_eq_ok_iff hparse).mp hsheet
    obtain ⟨classes', hclasses', heq⟩ := exists_ofClasses_eq_of_patched hpatched hclasses
    exact ⟨_, (parse_eq_ok_iff hparse').mpr ⟨classes', hclasses', heq.symm, rfl⟩⟩
  · intro text' document' className json sheet diagnostics sheet' diagnostics' hparse' hmem hmem'
      hsheet hsheet'
    obtain ⟨classes, hclasses, rfl, rfl⟩ := (parse_eq_ok_iff hparse).mp hsheet
    obtain ⟨classes', hclasses', rfl, rfl⟩ := (parse_eq_ok_iff hparse').mp hsheet'
    exact class_eq_of_reads hdocument (Json.increasing_of_parse hparse') hclasses hclasses' hmem
      hmem'

/-- A class of an unknown modifier and a font weight.  The first is dropped and the second kept,
which is also what becomes of the weight alone.  A malformed item behind the unknown modifier makes
the document unreadable. -/
theorem parse_partitions_weight :
    let d := (Registry.standard .ios).decoder
    let blur : Json := .array [.string "blur", .null, .array []]
    let bold : Json := .array [.string "fontWeight", .null, .array [.null, .string "bold"]]
    let short : Json := .array [.string "blur", .null]
    let text :=
      "\x7b\"a\":[[\"blur\",null,[]],[\"fontWeight\",null,[null,\"bold\"]]]\x7d".toUTF8.toList
    let patched := "\x7b\"a\":[[\"fontWeight\",null,[null,\"bold\"]]]\x7d".toUTF8.toList
    let broken := "\x7b\"a\":[[\"blur\",null,[]],[\"blur\",null]]\x7d".toUTF8.toList
    Json.parse text = .ok (.object [("a", .array [blur, bold])]) ∧
      (∃ sheet diagnostics, Stylesheet.parse d text = .ok (sheet, diagnostics) ∧
        diagnostics.map Diagnostic.index = [0] ∧
        Partition d [("a", .array [blur, bold])] sheet diagnostics ∧
        ∃ diagnostics', Stylesheet.parse d patched = .ok (sheet, diagnostics')) ∧
      Json.parse broken = .ok (.object [("a", .array [blur, short])]) ∧
      Stylesheet.parse d broken = .error (.malformed "$.a[1]" (.nodeLength 2)) := by
  intro d blur bold short text patched broken
  have htext : Json.parse text = .ok (.object [("a", .array [blur, bold])]) := by
    simp only [text, blur, bold]
    exact Json.parse_toUTF8 (by decide +kernel) (by simp [Increasing]) (by simp [Json.maxDepth])
  have hpatched : Json.parse patched = .ok (.object [("a", .array [bold])]) := by
    simp only [patched, bold]
    exact Json.parse_toUTF8 (by decide +kernel) (by simp [Increasing]) (by simp [Json.maxDepth])
  have hbroken : Json.parse broken = .ok (.object [("a", .array [blur, short])]) := by
    simp only [broken, blur, short]
    exact Json.parse_toUTF8 (by decide +kernel) (by simp [Increasing]) (by simp [Json.maxDepth])
  have hdropped : ((Stylesheet.parse d text).toOption.any fun result =>
      result.2.map Diagnostic.index = [0]) = true := by
    rw [Stylesheet.parse, htext]
    decide +kernel
  obtain ⟨⟨sheet, diagnostics⟩, hsheet, hindex⟩ := (Option.any_eq_true _ _).mp hdropped
  replace hsheet := toOption_eq_some_iff.mp hsheet
  replace hindex := of_decide_eq_true hindex
  have hblur : Undecodable d blur := by
    have hfails : (d.decodeModifier ⟨"blur", .empty, none, []⟩).isOk = false := by decide +kernel
    cases hdecode : d.decodeModifier ⟨"blur", .empty, none, []⟩ with
    | ok r =>
      rw [hdecode] at hfails
      cases hfails
    | error failures => exact ⟨_, failures, rfl, hdecode⟩
  have hclass : PatchedClass d ("a", .array [blur, bold]) ("a", .array [bold]) :=
    ⟨rfl, _, _, rfl, rfl, .delete hblur (.keep bold .nil)⟩
  refine ⟨htext, ⟨sheet, diagnostics, hsheet, hindex, ?_, ?_⟩, hbroken, ?_⟩
  · exact (parse_partitions d text _ htext).2.2.2.1 sheet diagnostics hsheet
  · exact (parse_partitions d text _ htext).2.2.2.2.1 patched _ sheet diagnostics hpatched
      (.cons hclass .nil) hsheet
  · refine ((parse_partitions d broken _ hbroken).2.2.1 _).mpr ?_
    have hearlier : ∀ item ∈ [blur], IsReadable item := by
      intro item hitem
      rw [List.mem_singleton.mp hitem]
      exact ⟨_, rfl⟩
    have hshort : Wire.readNode short = .error (Malformation.nodeLength 2).here := rfl
    have hpath : itemPath (classPath "a") [blur].length = "$.a[1]" := by cbv
    have hclass : ClassOffence "a" (.array ([blur] ++ short :: []))
        ((Malformation.nodeLength 2).here.at (itemPath (classPath "a") [blur].length)) :=
      .notNode hearlier hshort
    rw [hpath] at hclass
    have hfirst : FirstOffence ([] ++ ("a", .array ([blur] ++ short :: [])) :: []) _ :=
      .intro (fun _ hentry => absurd hentry List.not_mem_nil) hclass
    exact hfirst

end DeferredStyle
