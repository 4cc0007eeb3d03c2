import DeferredStyle.CommandLine.Run
import DeferredStyle.Proofs.Partition
import DeferredStyle.Stylesheet.Events

/-!
# The numbers in warnings

A diagnostic numbers a modifier by its place in the document.  A warning about a modifier that has
no value in a context numbers it by its place among the modifiers that were kept.  The two numbers
of one modifier are apart by the modifiers that were dropped before it.

* `failuresFrom` — what the warnings of a class are made of.
* `decodedModifiers_getElem?_iff` — a tree stands behind as many trees as its node has kept nodes
  before it.
* `droppedBefore_add_length` — before a place, the nodes of a class are kept or dropped.
* `warning_numbers` — which modifier a warning is about.
* `warning_number_shared` — two warnings about different modifiers of one class that carry the same
  number.
-/

set_option autoImplicit false

namespace DeferredStyle

/-! ## Warnings -/

/-- The errors among results, with their places; the first result has the place `i`. -/
def failuresFrom (i : Nat) (results : List (Except ResolveError Modifier)) :
    List (Nat × ResolveError) :=
  (results.zipIdx i).filterMap fun (result, place) =>
    match result with
    | .ok _ => none
    | .error e => some (place, e)

theorem skippedEvents_eq (className : String) (i : Nat)
    (results : List (Except ResolveError Modifier)) :
    skippedEvents className i results =
      (failuresFrom i results).map fun (number, e) => .skippedModifier number className e := by
  induction results generalizing i with
  | nil => rfl
  | cons result results ih =>
    rw [failuresFrom, List.zipIdx_cons, List.filterMap_cons, ← failuresFrom]
    cases result with
    | ok modifier => exact ih (i + 1)
    | error e => exact congrArg _ (ih (i + 1))

/-- The line that a command writes about a modifier without a value. -/
def warningText (className : String) (number : Nat) (e : ResolveError) : String :=
  s!"warning: modifier {number} of class `{className}`: {e.message}\n"

theorem unresolvedTexts_eq (className : String) (i : Nat)
    (results : List (Except ResolveError Modifier)) :
    CommandLine.unresolvedTexts className i results =
      (failuresFrom i results).map fun (number, e) => warningText className number e := by
  induction results generalizing i with
  | nil => rfl
  | cons result results ih =>
    rw [failuresFrom, List.zipIdx_cons, List.filterMap_cons, ← failuresFrom]
    cases result with
    | ok modifier => exact ih (i + 1)
    | error e => exact congrArg _ (ih (i + 1))

theorem mem_failuresFrom {results : List (Except ResolveError Modifier)} {number : Nat}
    {e : ResolveError} :
    (number, e) ∈ failuresFrom 0 results ↔ results[number]? = some (.error e) := by
  simp only [failuresFrom, List.mem_filterMap, Prod.exists, List.mk_mem_zipIdx_iff_getElem?]
  constructor
  · rintro ⟨result, place, hresult, heq⟩
    cases result <;> cases heq
    exact hresult
  · exact fun hresult => ⟨_, number, hresult, rfl⟩

/-- No two failures have the same place. -/
theorem pairwise_failuresFrom (i : Nat) (results : List (Except ResolveError Modifier)) :
    (failuresFrom i results).Pairwise fun failure later => failure.1 < later.1 := by
  refine List.Pairwise.filterMap _ ?_ (pairwise_zipIdx i results)
  rintro ⟨result, place⟩ ⟨result', place'⟩ hlt failure hfailure later hlater
  cases result <;> cases hfailure
  cases result' <;> cases hlater
  exact hlt

/-- A node whose tree has no value in a context, by evaluation. -/
theorem exists_unresolved {d : Decoder} {node : Node} {context : Context} {e : ResolveError}
    (h : ((d.decodeModifier node).toOption.any fun r =>
      failuresFrom 0 [r.resolveAs Modifier context] = [(0, e)]) = true) :
    ∃ r, d.decodeModifier node = .ok r ∧ r.resolveAs Modifier context = .error e := by
  obtain ⟨r, hr, hfails⟩ := (Option.any_eq_true _ _).mp h
  have hmem : (0, e) ∈ failuresFrom 0 [r.resolveAs Modifier context] := by
    rw [of_decide_eq_true hfails]
    exact List.mem_cons_self
  exact ⟨r, toOption_eq_some_iff.mp hr, Option.some.inj (mem_failuresFrom.mp hmem)⟩

/-! ## Kept and dropped nodes -/

/-- What stands at a place has as many members before it. -/
theorem getElem?_eq_some_iff_append {α : Type} {as : List α} {place : Nat} {a : α} :
    as[place]? = some a ↔ ∃ before after, as = before ++ a :: after ∧ before.length = place := by
  constructor
  · intro h
    obtain ⟨hplace, ha⟩ := List.getElem?_eq_some_iff.mp h
    have hsplit := List.take_append_drop place as
    rw [List.drop_eq_getElem_cons hplace, ha] at hsplit
    exact ⟨_, _, hsplit.symm, List.length_take_of_le (Nat.le_of_lt hplace)⟩
  · rintro ⟨before, after, rfl, rfl⟩
    simp

section Nodes

variable {d : Decoder}

theorem decodedModifiers_eq_filterMap (nodes : List Node) :
    decodedModifiers d nodes = nodes.filterMap fun node => (d.decodeModifier node).toOption := by
  induction nodes with
  | nil => rfl
  | cons node nodes ih =>
    rw [decodedModifiers, List.filterMap_cons, ih]
    cases d.decodeModifier node <;> rfl

/-- A tree stands behind those of the nodes before its own. -/
theorem decodedModifiers_getElem?_iff {nodes : List Node} {number : Nat} {r : Resolvable} :
    (decodedModifiers d nodes)[number]? = some r ↔
      ∃ before node after, nodes = before ++ node :: after ∧
        (decodedModifiers d before).length = number ∧ d.decodeModifier node = .ok r := by
  simp only [decodedModifiers_eq_filterMap]
  constructor
  · intro h
    obtain ⟨trees, trees', hsplit, rfl⟩ := getElem?_eq_some_iff_append.mp h
    obtain ⟨front, rest, rfl, hfront, hrest⟩ := List.filterMap_eq_append_iff.mp hsplit
    obtain ⟨dropped, node, after, rfl, hdropped, hnode, -⟩ := List.filterMap_eq_cons_iff.mp hrest
    refine ⟨front ++ dropped, node, after, by simp, ?_, toOption_eq_some_iff.mp hnode⟩
    rw [List.filterMap_append, List.filterMap_eq_nil_iff.mpr hdropped, List.append_nil, hfront]
  · rintro ⟨before, node, after, rfl, rfl, hnode⟩
    rw [List.filterMap_append, List.filterMap_cons, hnode]
    simp [Except.toOption]

theorem length_classDiagnostics (className : String) (i : Nat) (nodes : List Node) :
    (decodedModifiers d nodes).length + (classDiagnostics d className i nodes).length =
      nodes.length := by
  induction nodes generalizing i with
  | nil => rfl
  | cons node nodes ih =>
    have hrest := ih (i + 1)
    rw [decodedModifiers, classDiagnostics]
    cases d.decodeModifier node <;> simp only [List.length_cons] <;> omega

theorem classDiagnostics_append (className : String) (i : Nat) (nodes nodes' : List Node) :
    classDiagnostics d className i (nodes ++ nodes') =
      classDiagnostics d className i nodes ++
        classDiagnostics d className (i + nodes.length) nodes' := by
  simp only [classDiagnostics_eq, droppedFrom, List.zipIdx_append, List.filterMap_append,
    List.map_append]

/-- The diagnostics of a class have places in the class. -/
theorem index_of_mem_classDiagnostics {className : String} {i : Nat} {nodes : List Node}
    {diagnostic : Diagnostic} (h : diagnostic ∈ classDiagnostics d className i nodes) :
    i ≤ diagnostic.index ∧ diagnostic.index < i + nodes.length := by
  rw [classDiagnostics_eq] at h
  obtain ⟨⟨place, failures⟩, hentry, rfl⟩ := List.mem_map.mp h
  obtain ⟨⟨node, own⟩, hnode, heq⟩ := List.mem_filterMap.mp hentry
  obtain ⟨hfirst, hlast, -⟩ := List.mem_zipIdx hnode
  dsimp only at heq
  split at heq <;> cases heq
  exact ⟨hfirst, hlast⟩

end Nodes

/-! ## Places in a document -/

/-- How many modifiers of a class were dropped before a place. -/
def droppedBefore (className : String) (place : Nat) (diagnostics : List Diagnostic) : Nat :=
  diagnostics.countP fun diagnostic => diagnostic.className = className && diagnostic.index < place

theorem droppedBefore_eq_zero_iff {className : String} {place : Nat}
    {diagnostics : List Diagnostic} :
    droppedBefore className place diagnostics = 0 ↔
      ∀ diagnostic ∈ diagnostics, diagnostic.className = className →
        place ≤ diagnostic.index := by
  simp [droppedBefore, List.countP_eq_zero]

section Places

variable {d : Decoder} {classes : List (String × List Node)} {className : String}

/-- **Before a place, the nodes of a class are kept or dropped.** -/
theorem droppedBefore_add_length (hclasses : Increasing classes) {before after : List Node}
    (hclass : (className, before ++ after) ∈ classes) :
    (decodedModifiers d before).length +
        droppedBefore className before.length (Stylesheet.diagnostics d classes) =
      before.length := by
  have hown : droppedBefore className before.length (Stylesheet.diagnostics d classes) =
      (classDiagnostics d className 0 (before ++ after)).countP (·.index < before.length) := by
    rw [← filter_diagnostics hclasses hclass, List.countP_filter, droppedBefore]
    exact List.countP_congr fun diagnostic _ => by simp [and_comm]
  have hbefore : (classDiagnostics d className 0 before).countP (·.index < before.length) =
      (classDiagnostics d className 0 before).length :=
    List.countP_eq_length.mpr fun diagnostic hmem => by
      simpa using (index_of_mem_classDiagnostics hmem).2
  have hafter : (classDiagnostics d className (0 + before.length) after).countP
      (·.index < before.length) = 0 :=
    List.countP_eq_zero.mpr fun diagnostic hmem => by
      simpa using (index_of_mem_classDiagnostics hmem).1
  rw [hown, classDiagnostics_append, List.countP_append, hbefore, hafter, Nat.add_zero,
    length_classDiagnostics]

/-- Which node of a class a number belongs to. -/
theorem decodedModifiers_getElem?_iff_place (hclasses : Increasing classes) {nodes : List Node}
    (hclass : (className, nodes) ∈ classes) {number : Nat} {r : Resolvable} :
    (decodedModifiers d nodes)[number]? = some r ↔
      ∃ place node, nodes[place]? = some node ∧ d.decodeModifier node = .ok r ∧
        number + droppedBefore className place (Stylesheet.diagnostics d classes) = place := by
  rw [decodedModifiers_getElem?_iff]
  constructor
  · rintro ⟨before, node, after, rfl, rfl, hnode⟩
    exact ⟨before.length, node, getElem?_eq_some_iff_append.mpr ⟨before, after, rfl, rfl⟩, hnode,
      droppedBefore_add_length hclasses hclass⟩
  · rintro ⟨place, node, hplace, hnode, hnumber⟩
    obtain ⟨before, after, rfl, rfl⟩ := getElem?_eq_some_iff_append.mp hplace
    have hkept := droppedBefore_add_length (d := d) hclasses hclass
    exact ⟨before, node, after, rfl, by omega, hnode⟩

theorem resolveClass_ofClasses (hclasses : Increasing classes) {nodes : List Node}
    (hclass : (className, nodes) ∈ classes) (context : Context) :
    (Stylesheet.ofClasses d classes).resolveClass className context =
      (decodedModifiers d nodes).map (Resolvable.resolveAs Modifier context) := by
  rw [Stylesheet.resolveClass, Stylesheet.modifiersOf, class?_ofClasses hclasses hclass]
  rfl

end Places

/-- **Warnings number what was kept.**  The warnings about a class in a context are made of one list
of failures, in which no number comes twice.  A modifier without a value stands in it, and its
number and the number of modifiers of its class that were dropped before it make its place in the
document.  So the two are the same if and only if none was. -/
theorem warning_numbers (d : Decoder) (text : List UInt8) (document : List (String × Json))
    (hparse : Json.parse text = .ok (.object document)) (sheet : Stylesheet)
    (diagnostics : List Diagnostic) (hsheet : Stylesheet.parse d text = .ok (sheet, diagnostics))
    (className : String) (items : List Json) (hmem : (className, .array items) ∈ document)
    (context : Context) :
    ∃ failures : List (Nat × ResolveError),
      skippedEvents className 0 (sheet.resolveClass className context) =
        failures.map (fun (number, e) => .skippedModifier number className e) ∧
      CommandLine.unresolvedTexts className 0 (sheet.resolveClass className context) =
        failures.map (fun (number, e) => warningText className number e) ∧
      failures.Pairwise (fun failure later => failure.1 < later.1) ∧
      (∀ number e, (number, e) ∈ failures ↔
        ∃ place node r, ReadsAt items place node ∧ d.decodeModifier node = .ok r ∧
          r.resolveAs Modifier context = .error e ∧
          number + droppedBefore className place diagnostics = place) ∧
      ∀ place, droppedBefore className place diagnostics = 0 ↔
        ∀ diagnostic ∈ diagnostics, diagnostic.className = className →
          place ≤ diagnostic.index := by
  obtain ⟨classes, hreads, rfl, rfl⟩ := (parse_eq_ok_iff hparse).mp hsheet
  have hclasses : Increasing classes :=
    increasing_of_keys_eq (keys_eq_of_reads hreads) (Json.increasing_of_parse hparse)
  obtain ⟨nodes, hclass, hread⟩ := exists_read_of_mem hreads hmem
  obtain ⟨items', hitems, hnodes⟩ := readClass_eq_ok_iff.mp hread
  cases hitems
  refine ⟨_, skippedEvents_eq _ _ _, unresolvedTexts_eq _ _ _, pairwise_failuresFrom _ _,
    fun number e => ?_, fun place => droppedBefore_eq_zero_iff⟩
  rw [mem_failuresFrom, resolveClass_ofClasses hclasses hclass, List.getElem?_map,
    Option.map_eq_some_iff]
  simp only [decodedModifiers_getElem?_iff_place hclasses hclass, readsAt_iff hnodes]
  constructor
  · rintro ⟨r, ⟨place, node, hplace, hnode, hnumber⟩, hfails⟩
    exact ⟨place, node, r, hplace, hnode, hfails, hnumber⟩
  · rintro ⟨place, node, r, hplace, hnode, hfails, hnumber⟩
    exact ⟨r, ⟨place, node, hplace, hnode, hnumber⟩, hfails⟩

/-- An unknown modifier, an opacity, and an opacity that is an attribute of the element.  Where the
attribute is not set, the warning about the last of them says `1`, and its place is `2`. -/
theorem warning_numbers_opacity :
    let d := (Registry.standard .ios).decoder
    let blur : Json := .array [.string "blur", .null, .array []]
    let clear : Json := .array [.string "opacity", .null, .array [.null, .number (.natural 0)]]
    let bound : Json := .array [.string "opacity", .null,
      .array [.null, .array [.string "__attr__", .null, .string "w"]]]
    let text := ("\x7b\"a\":[[\"blur\",null,[]],[\"opacity\",null,[null,0]]," ++
      "[\"opacity\",null,[null,[\"__attr__\",null,\"w\"]]]]\x7d").toUTF8.toList
    let context : Context := ⟨fun _ => none, .standard⟩
    let e := ResolveError.missingOrInvalidAttribute "w" "attribute is not set"
    Json.parse text = .ok (.object [("a", .array [blur, clear, bound])]) ∧
      ∃ sheet diagnostics, Stylesheet.parse d text = .ok (sheet, diagnostics) ∧
        droppedBefore "a" 2 diagnostics = 1 ∧
        .skippedModifier 1 "a" e ∈ skippedEvents "a" 0 (sheet.resolveClass "a" context) := by
  intro d blur clear bound text context e
  have htext : Json.parse text = .ok (.object [("a", .array [blur, clear, bound])]) := by
    simp only [text, blur, clear, bound]
    exact Json.parse_toUTF8 (by decide +kernel) (by simp [Increasing, Number.Valid])
      (by simp [Json.maxDepth, Json.rereads_natural])
  have hdropped : ((Stylesheet.parse d text).toOption.any fun result =>
      droppedBefore "a" 2 result.2 = 1) = true := by
    rw [Stylesheet.parse, htext]
    decide +kernel
  obtain ⟨⟨sheet, diagnostics⟩, hsheet, hcount⟩ := (Option.any_eq_true _ _).mp hdropped
  replace hsheet := toOption_eq_some_iff.mp hsheet
  replace hcount : droppedBefore "a" 2 diagnostics = 1 := of_decide_eq_true hcount
  let node : Node := ⟨"opacity", .empty, none, [⟨none, .reference "w" .empty⟩]⟩
  obtain ⟨r, hr, hresolve⟩ : ∃ r, d.decodeModifier node = .ok r ∧
      r.resolveAs Modifier context = .error e := exists_unresolved (by decide +kernel)
  obtain ⟨failures, hevents, -, -, hmem, -⟩ := warning_numbers d text _ htext sheet diagnostics
    hsheet "a" _ List.mem_cons_self context
  have hfailure : (1, e) ∈ failures :=
    (hmem 1 e).mpr ⟨2, node, r, ⟨bound, rfl, rfl⟩, hr, hresolve, by rw [hcount]⟩
  refine ⟨htext, sheet, diagnostics, hsheet, hcount, ?_⟩
  rw [hevents]
  exact List.mem_map.mpr ⟨(1, e), hfailure, rfl⟩

/-- An unknown modifier before a weight that is an attribute of the element.  The diagnostic about
the first and the warnings about the second all say `0`, though the modifier at the place `0` has no
tree and the one that has no value stands at the place `1`. -/
theorem warning_number_shared :
    let d := (Registry.standard .ios).decoder
    let nope : Json := .array [.string "nope", .null, .array []]
    let weight : Json := .array [.string "fontWeight", .null,
      .array [.null, .array [.string "__attr__", .null, .string "weight"]]]
    let text := ("\x7b\"c\":[[\"nope\",null,[]]," ++
      "[\"fontWeight\",null,[null,[\"__attr__\",null,\"weight\"]]]]\x7d").toUTF8.toList
    let context : Context := ⟨fun _ => none, .standard⟩
    let e := ResolveError.missingOrInvalidAttribute "weight" "attribute is not set"
    Json.parse text = .ok (.object [("c", .array [nope, weight])]) ∧
      ∃ sheet diagnostics, Stylesheet.parse d text = .ok (sheet, diagnostics) ∧
        diagnostics.map (fun diagnostic => (diagnostic.className, diagnostic.index)) =
          [("c", 0)] ∧
        skippedEvents "c" 0 (sheet.resolveClass "c" context) = [.skippedModifier 0 "c" e] ∧
        CommandLine.unresolvedTexts "c" 0 (sheet.resolveClass "c" context) =
          [warningText "c" 0 e] ∧
        (∃ node r, ReadsAt [nope, weight] 1 node ∧ d.decodeModifier node = .ok r ∧
          r.resolveAs Modifier context = .error e) ∧
        ∀ node r, ReadsAt [nope, weight] 0 node → d.decodeModifier node ≠ .ok r := by
  intro d nope weight text context e
  have htext : Json.parse text = .ok (.object [("c", .array [nope, weight])]) := by
    simp only [text, nope, weight]
    exact Json.parse_toUTF8 (by decide +kernel) (by simp [Increasing]) (by simp [Json.maxDepth])
  have hparse : ((Stylesheet.parse d text).toOption.any fun result =>
      result.2.map (fun diagnostic => (diagnostic.className, diagnostic.index)) = [("c", 0)] &&
        failuresFrom 0 (result.1.resolveClass "c" context) = [(0, e)]) = true := by
    rw [Stylesheet.parse, htext]
    decide +kernel
  obtain ⟨⟨sheet, diagnostics⟩, hsheet, hresult⟩ := (Option.any_eq_true _ _).mp hparse
  replace hsheet := toOption_eq_some_iff.mp hsheet
  simp only [Bool.and_eq_true, decide_eq_true_eq] at hresult
  obtain ⟨hdiagnostics, hfailures⟩ := hresult
  refine ⟨htext, sheet, diagnostics, hsheet, hdiagnostics, ?_, ?_, ?_, ?_⟩
  · rw [skippedEvents_eq, hfailures]
    rfl
  · rw [unresolvedTexts_eq, hfailures]
    rfl
  · let node : Node := ⟨"fontWeight", .empty, none, [⟨none, .reference "weight" .empty⟩]⟩
    obtain ⟨r, hr, hresolve⟩ : ∃ r, d.decodeModifier node = .ok r ∧
        r.resolveAs Modifier context = .error e := exists_unresolved (by decide +kernel)
    exact ⟨node, r, ⟨weight, rfl, rfl⟩, hr, hresolve⟩
  · have hfails : (d.decodeModifier ⟨"nope", .empty, none, []⟩).isOk = false := by decide +kernel
    rintro node r ⟨json, hjson, hread⟩ hr
    cases hjson
    cases hread
    rw [hr] at hfails
    cases hfails

end DeferredStyle
