import DeferredStyle.Proofs.Grammar
import DeferredStyle.Stylesheet.Basic

/-!
# Paths on the way down

The reader of nodes reports the steps to what is wrong, and the path is completed when they are
known.  One may as well hand the path of every part down to the reader of this part, which then
writes it into its error.  Both ways give the same results.

* `Result.at` — a result whose error has a path.
* `nodeAt`, `termAt` — reading with the path in hand.
* `nodeAt_eq`, `termAt_eq` — it is the same reading.
-/

set_option autoImplicit false

namespace DeferredStyle.Wire

/-- The result of reading the value at a path. -/
def Result.at {α : Type} (path : String) : Result α → Except WireError α
  | .ok a => .ok a
  | .error m => .error (m.at path)

/-- The path one step further in. -/
def enter (path : String) (step : Step) : String := path ++ step.text

/-! ## Reading with the path in hand -/

/-- The tag and the annotations of the node at a path. -/
def headAt (path : String) (tag annotations : Json) : Except WireError (String × Annotations) :=
  match (readTag tag).at (enter path (.index 0)) with
  | .error e => .error e
  | .ok tag =>
    match (readAnnotations annotations).at (enter path (.index 1)) with
    | .error e => .error e
    | .ok annotations =>
      if tag = attributeTag then .error (.malformed path .misplacedAttribute)
      else .ok (tag, annotations)

/-- The attribute reference at a path, if a list is tagged as one. -/
def attributeAt? (path : String) : List Json → Except WireError (Option Term)
  | [.string tag, annotations, name] =>
    if tag = attributeTag then
      match (readAnnotations annotations).at (enter path (.index 1)) with
      | .error e => .error e
      | .ok annotations =>
        match name with
        | .string name => .ok (some (.reference name annotations))
        | _ => .error (.malformed (enter path (.index 2)) .attributeName)
    else .ok none
  | _ => .ok none

/-- The argument of the object at a path, given the reading of its member `value`. -/
def labeledAt (path : String) (members : List (String × Json))
    (value? : Option (Except WireError Term)) : Except WireError (Argument Term) :=
  match unexpectedKey? members with
  | some key => .error (.malformed path (.unexpectedKey key))
  | none =>
    match value? with
    | none => .error (.malformed path .noValue)
    | some value =>
      match (readLabel (Table.lookup? "label" members)).at path with
      | .error e => .error e
      | .ok label => value.map fun value => ⟨label, value⟩

/-- A part in front of the parts behind it. -/
def consed {α : Type} (head : Except WireError α) (tail : Except WireError (List α)) :
    Except WireError (List α) :=
  match head with
  | .error e => .error e
  | .ok a => tail.map (a :: ·)

/-- The node of a head and arguments. -/
def nodeOf (head : String × Annotations) (selector : Option String)
    (arguments : Except WireError (List (Argument Term))) : Except WireError Node :=
  arguments.map fun arguments => ⟨head.1, head.2, selector, arguments⟩

mutual

/-- The term at a path. -/
def termAt (path : String) : Json → Except WireError Term
  | .array items =>
    match attributeAt? path items with
    | .error e => .error e
    | .ok (some reference) => .ok reference
    | .ok none =>
      if isNodeShaped items then (elementsAt path items).map .call
      else (itemsAt path 0 items).map .list
  | .object _ => .error (.malformed path .bareObject)
  | .null => .ok (.literal .nil)
  | .bool b => .ok (.literal (.bool b))
  | .number n => .ok (.literal (.ofNumber n))
  | .string s => .ok (.literal (.string s))

/-- The terms of the items of the list at a path, the first of which has the index `i`. -/
def itemsAt (path : String) (i : Nat) : List Json → Except WireError (List Term)
  | [] => .ok []
  | item :: items => consed (termAt (enter path (.index i)) item) (itemsAt path (i + 1) items)

/-- The node of the elements of the list at a path. -/
def elementsAt (path : String) : List Json → Except WireError Node
  | [tag, annotations, .array arguments] =>
    match headAt path tag annotations with
    | .error e => .error e
    | .ok head =>
      match arguments with
      | .null :: rest => nodeOf head none (argumentsAt (enter path (.index 2)) 1 rest)
      | .string selector :: rest =>
        nodeOf head (some selector) (argumentsAt (enter path (.index 2)) 1 rest)
      | rest => nodeOf head none (argumentsAt (enter path (.index 2)) 0 rest)
  | [tag, annotations, _] =>
    match headAt path tag annotations with
    | .error e => .error e
    | .ok _ => .error (.malformed (enter path (.index 2)) .noArguments)
  | elements => .error (.malformed path (.nodeLength elements.length))

/-- The arguments in the list at a path, the first of which has the index `i`. -/
def argumentsAt (path : String) (i : Nat) : List Json → Except WireError (List (Argument Term))
  | [] => .ok []
  | .object members :: items =>
    consed (labeledAt (enter path (.index i)) members (valueAt? (enter path (.index i)) members))
      (argumentsAt path (i + 1) items)
  | item :: items =>
    consed ((termAt (enter path (.index i)) item).map fun term => ⟨none, term⟩)
      (argumentsAt path (i + 1) items)

/-- The reading of the member `value` of the object at a path, if there is one. -/
def valueAt? (path : String) : List (String × Json) → Option (Except WireError Term)
  | [] => none
  | (key, value) :: members =>
    if key = "value" then some (termAt (enter path .value) value) else valueAt? path members

end

/-- The node at a path. -/
def nodeAt (path : String) : Json → Except WireError Node
  | .array elements => elementsAt path elements
  | _ => .error (.malformed path .notNode)

/-! ## The same reading -/

section Parts

variable {α β : Type} {path : String}

/-- A step behind the path of a value is a step in front of the steps from it. -/
theorem at_under (result : Result α) (step : Step) :
    (result.under step).at path = result.at (enter path step) := by
  cases result <;> rfl

theorem at_ok (a : α) : Result.at path (.ok a) = .ok a := rfl

theorem at_map (result : Result α) (f : α → β) :
    Result.at path (result.map f) = (result.at path).map f := by
  cases result <;> rfl

theorem at_consAt (i : Nat) (head : Result α) (tail : Result (List α)) :
    (consAt i head tail).at path = consed (head.at (enter path (.index i))) (tail.at path) := by
  cases head <;> cases tail <;> rfl

theorem at_makeNode (head : String × Annotations) (selector : Option String)
    (arguments : Result (List (Argument Term))) :
    (makeNode head selector arguments).at path =
      nodeOf head selector (arguments.at (enter path (.index 2))) := by
  cases arguments <;> rfl

theorem headAt_eq (tag annotations : Json) :
    headAt path tag annotations = (readHead tag annotations).at path := by
  rw [headAt, ← at_under, ← at_under, readHead]
  cases (readTag tag).under (.index 0) with
  | error m => rfl
  | ok tag =>
    cases (readAnnotations annotations).under (.index 1) with
    | error m => rfl
    | ok annotations =>
      dsimp only [Result.at]
      split <;> rfl

theorem attributeAt?_eq (items : List Json) :
    attributeAt? path items = (readAttribute? items).at path := by
  unfold attributeAt?
  split
  · rename_i tag annotations name
    rw [readAttribute?, ← at_under]
    split
    · cases (readAnnotations _).under (.index 1) with
      | error m => rfl
      | ok annotations =>
        dsimp only [Result.at]
        cases name <;> rfl
    · rfl
  · rename_i h
    rw [readAttribute?]
    · rfl
    · exact h

theorem labeledAt_eq (members : List (String × Json)) (value? : Option (Result Term)) :
    labeledAt path members (value?.map fun value => value.at (enter path .value)) =
      (readLabeled members value?).at path := by
  unfold labeledAt readLabeled
  cases unexpectedKey? members with
  | some key => rfl
  | none =>
    cases value? with
    | none => rfl
    | some value =>
      dsimp only [Option.map_some]
      cases readLabel (Table.lookup? "label" members) with
      | error m => rfl
      | ok label => cases value <;> rfl

end Parts

/-- The argument at a path. -/
def argumentAt (path : String) : Json → Except WireError (Argument Term)
  | .object members => labeledAt path members (valueAt? path members)
  | value => (termAt path value).map fun term => ⟨none, term⟩

theorem argumentsAt_cons (path : String) (i : Nat) (item : Json) (items : List Json) :
    argumentsAt path i (item :: items) =
      consed (argumentAt (enter path (.index i)) item) (argumentsAt path (i + 1) items) := by
  cases item <;> rfl

/-- The value is read the same with a path in hand: as a term, as an argument, and as the list of
arguments of a node. -/
structure Traced (j : Json) : Prop where
  term : ∀ path, termAt path j = (readTerm j).at path
  argument : ∀ path, argumentAt path j = (argumentReading j).at path
  arguments : ∀ items, j = .array items → ∀ item ∈ items, ∀ path,
    argumentAt path item = (argumentReading item).at path

section Lists

variable {path : String}

theorem itemsAt_eq {items : List Json} (h : ∀ item ∈ items, Traced item) (i : Nat) :
    itemsAt path i items = (readItems i items).at path := by
  induction items generalizing i with
  | nil => rfl
  | cons item items ih =>
    obtain ⟨hitem, hitems⟩ := List.forall_mem_cons.mp h
    rw [itemsAt, readItems, at_consAt, hitem.term, ih hitems]

theorem argumentsAt_eq {items : List Json}
    (h : ∀ item ∈ items, ∀ path, argumentAt path item = (argumentReading item).at path) (i : Nat) :
    argumentsAt path i items = (readArguments i items).at path := by
  rw [readArguments_eq]
  induction items generalizing i with
  | nil => rfl
  | cons item items ih =>
    obtain ⟨hitem, hitems⟩ := List.forall_mem_cons.mp h
    rw [argumentsAt_cons, readEach, at_consAt, hitem, ih hitems]

theorem valueAt?_eq {members : List (String × Json)} (h : ∀ member ∈ members, Traced member.2) :
    valueAt? path members =
      (readValueMember? members).map fun value => value.at (enter path .value) := by
  induction members with
  | nil => rfl
  | cons member members ih =>
    obtain ⟨key, value⟩ := member
    obtain ⟨hvalue, hmembers⟩ := List.forall_mem_cons.mp h
    rw [valueAt?, readValueMember?, hvalue.term, ih hmembers]
    split <;> rfl

theorem elementsAt_eq {elements : List Json} (h : ∀ element ∈ elements, Traced element) :
    elementsAt path elements = (readElements elements).at path := by
  unfold elementsAt
  split
  · rename_i tag annotations arguments
    have hall := (h (.array arguments) (by simp)).arguments arguments rfl
    rw [readElements, headAt_eq]
    cases readHead tag annotations with
    | error m => rfl
    | ok head =>
      cases arguments with
      | nil => rfl
      | cons first rest =>
        have htail : argumentsAt (enter path (.index 2)) 1 rest =
            (readArguments 1 rest).at (enter path (.index 2)) :=
          argumentsAt_eq (List.forall_mem_cons.mp hall).2 1
        cases first with
        | null => exact (congrArg (nodeOf head none) htail).trans (at_makeNode head none _).symm
        | string selector =>
          exact (congrArg (nodeOf head (some selector)) htail).trans (at_makeNode head _ _).symm
        | bool _ | number _ | array _ | object _ =>
          exact (congrArg (nodeOf head none) (argumentsAt_eq hall 0)).trans
            (at_makeNode head none _).symm
  · rename_i tag annotations other harray
    rw [headAt_eq, readElements]
    · cases readHead tag annotations <;> rfl
    · exact harray
  · rename_i harray hthree
    rw [readElements]
    · rfl
    · exact harray
    · exact hthree

theorem termAt_array_eq {items : List Json} (h : ∀ item ∈ items, Traced item) :
    termAt path (.array items) = (readTerm (.array items)).at path := by
  rw [termAt, readTerm, attributeAt?_eq]
  cases readAttribute? items with
  | error m => rfl
  | ok found =>
    cases found with
    | some reference => rfl
    | none =>
      rw [at_ok]
      dsimp only
      split
      · rw [elementsAt_eq h, ← at_map]
      · rw [itemsAt_eq h, ← at_map]

end Lists

theorem traced (j : Json) : Traced j := by
  induction j with
  | null | bool _ | number _ | string _ => exact ⟨fun _ => rfl, fun _ => rfl, nofun⟩
  | array items ih =>
    refine ⟨fun path => termAt_array_eq ih, fun path => ?_, fun items' heq item hitem => ?_⟩
    · rw [argumentAt, argumentReading, termAt_array_eq ih, readBare, at_map]
      · exact nofun
      · exact nofun
    · cases heq
      exact (ih item hitem).argument
  | object members ih =>
    refine ⟨fun _ => rfl, fun path => ?_, nofun⟩
    rw [argumentAt, argumentReading, valueAt?_eq ih, labeledAt_eq]

/-- **A term is read the same with its path in hand.** -/
theorem termAt_eq (path : String) (j : Json) : termAt path j = (readTerm j).at path :=
  (traced j).term path

theorem readNodeAt_eq (path : String) (j : Json) : readNodeAt path j = (readNode j).at path := by
  unfold readNodeAt
  cases readNode j <;> rfl

/-- **A node is read the same with its path in hand.** -/
theorem nodeAt_eq (path : String) (j : Json) : nodeAt path j = (readNode j).at path := by
  cases j with
  | array elements => exact elementsAt_eq fun element _ => traced element
  | null | bool _ | number _ | string _ | object _ => rfl

end DeferredStyle.Wire
