import DeferredStyle.Proofs.Grammar
import DeferredStyle.Proofs.Provenance
import DeferredStyle.Proofs.Rereading

/-!
# The trees that can be read

Whether a list of three items is an attribute reference, a node or a list of values is decided by
its outline alone.  So some trees are the reading of no value: those with a list whose items stand
for one of the other two outlines, those with a call that is tagged as an attribute reference, and
those with a double that is not finite.  Every other tree is read from the value that it is written
as.

* `Node.WellFormed`, `Term.WellFormed` — the other trees.
* `attributeOutline_iff`, `nodeOutline_iff` — the outline of a list, by its terms.
* `wellFormed_of_isNode` — what the grammar derives from a valid value is well-formed.
* `Node.toJson`, `Term.toJson` — the value that a tree is written as.
* `readNode_toJson` — the reader gives back a well-formed tree from this value.
* `readNode_image` — the well-formed trees are those that can be read.
-/

set_option autoImplicit false

namespace DeferredStyle

/-! ## Well-formed trees -/

/-- A literal that is a double is a finite one. -/
def Literal.IsFinite : Literal → Prop
  | float x => x.isFinite = true
  | _ => True

/-- The line and the column fit 64 bits. -/
def Annotations.InRange (a : Annotations) : Prop :=
  (∀ line, a.line = some line → line.toNat < 2 ^ 64) ∧
    ∀ column, a.column = some column → column.toNat < 2 ^ 64

namespace Term

/-- Three items, the first of which is the tag of an attribute reference. -/
def AttributeOutline (items : List Term) : Prop :=
  ∃ second third, items = [.literal (.string attributeTag), second, third]

/-- Three items: nil or a string, nil, and a list, a call or an attribute reference. -/
def NodeOutline (items : List Term) : Prop :=
  ∃ first third, items = [first, .literal .nil, third] ∧
    (first = .literal .nil ∨ ∃ s, first = .literal (.string s)) ∧ third.isLiteral = false

/-- Calls are not tagged as attribute references, lists have neither outline, doubles are finite and
positions fit 64 bits, at any depth. -/
inductive WellFormed : Term → Prop
  | literal {l : Literal} (h : l.IsFinite) : WellFormed (.literal l)
  | call {node : Node} (htag : node.tag ≠ attributeTag) (hannotations : node.annotations.InRange)
      (harguments : ∀ argument ∈ node.arguments, WellFormed argument.value) :
      WellFormed (.call node)
  | reference (name : String) {a : Annotations} (ha : a.InRange) : WellFormed (.reference name a)
  | list {items : List Term} (hattribute : ¬AttributeOutline items) (hnode : ¬NodeOutline items)
      (h : ∀ item ∈ items, WellFormed item) : WellFormed (.list items)

end Term

/-- The node is a well-formed call. -/
structure Node.WellFormed (node : Node) : Prop where
  tag : node.tag ≠ attributeTag
  annotations : node.annotations.InRange
  arguments : ∀ argument ∈ node.arguments, argument.value.WellFormed

theorem Annotations.inRange (a : Annotations) : a.InRange :=
  ⟨fun line _ => line.toNat_lt, fun column _ => column.toNat_lt⟩

theorem Number.Valid.isFinite_toFloat {n : Number} (h : n.Valid) : n.toFloat.isFinite = true := by
  cases n with
  | natural n => exact Doubles.isFinite_toFloat n
  | negative n =>
    change (if n < 0 then -(0 - n).toUInt64.toFloat else n.toUInt64.toFloat).isFinite = true
    split
    · exact Doubles.isFinite_neg (Doubles.isFinite_toFloat _)
    · exact Doubles.isFinite_toFloat _
  | float x => exact h

namespace Wire

/-! ## Outlines -/

theorem IsTerm.eq_null_iff {j : Json} {term : Term} (h : IsTerm j term) :
    j = .null ↔ term = .literal .nil := by
  cases h <;> simp

theorem IsTerm.eq_string_iff {j : Json} {term : Term} (h : IsTerm j term) (s : String) :
    j = .string s ↔ term = .literal (.string s) := by
  cases h <;> simp

theorem IsTerm.exists_array_iff {j : Json} {term : Term} (h : IsTerm j term) :
    (∃ items, j = .array items) ↔ term.isLiteral = false := by
  cases h <;> simp [Term.isLiteral]

theorem IsTerm.ne_object {j : Json} {term : Term} (h : IsTerm j term)
    (members : List (String × Json)) : j ≠ .object members := by
  rintro rfl
  cases h

/-- A list has the outline of an attribute reference exactly if its terms stand for it. -/
theorem attributeOutline_iff {items : List Json} {terms : List Term}
    (h : List.Forall₂ IsTerm items terms) :
    AttributeOutline items ↔ Term.AttributeOutline terms := by
  constructor
  · rintro ⟨annotations, name, rfl⟩
    obtain _ | ⟨htag, _ | ⟨hannotations, _ | ⟨hname, _ | _⟩⟩⟩ := h
    exact ⟨_, _, by rw [(htag.eq_string_iff attributeTag).mp rfl]⟩
  · rintro ⟨second, third, rfl⟩
    obtain _ | ⟨htag, _ | ⟨hsecond, _ | ⟨hthird, _ | _⟩⟩⟩ := h
    exact ⟨_, _, by rw [(htag.eq_string_iff attributeTag).mpr rfl]⟩

/-- A list has the outline of a node exactly if its terms stand for it. -/
theorem nodeOutline_iff {items : List Json} {terms : List Term}
    (h : List.Forall₂ IsTerm items terms) : NodeOutline items ↔ Term.NodeOutline terms := by
  constructor
  · rintro ⟨tag, annotations, arguments, rfl, htag, hannotations⟩
    obtain _ | ⟨hfirst, _ | ⟨hsecond, _ | ⟨hthird, _ | _⟩⟩⟩ := h
    have hnull : annotations = .null :=
      hannotations.resolve_right fun ⟨members, heq⟩ => hsecond.ne_object members heq
    refine ⟨_, _, by rw [hsecond.eq_null_iff.mp hnull], ?_, hthird.exists_array_iff.mp ⟨_, rfl⟩⟩
    exact htag.imp hfirst.eq_null_iff.mp fun ⟨s, hs⟩ => ⟨s, (hfirst.eq_string_iff s).mp hs⟩
  · rintro ⟨first, third, rfl, hfirst, hthird⟩
    obtain _ | ⟨htag, _ | ⟨hannotations, _ | ⟨harguments, _ | _⟩⟩⟩ := h
    obtain ⟨arguments, rfl⟩ := harguments.exists_array_iff.mpr hthird
    refine ⟨_, _, _, rfl, ?_, .inl (hannotations.eq_null_iff.mpr rfl)⟩
    exact hfirst.imp htag.eq_null_iff.mpr fun ⟨s, hs⟩ => ⟨s, (htag.eq_string_iff s).mpr hs⟩

/-! ## What is read is well-formed -/

/-- What the grammar derives from a value is well-formed: the term, the argument, and the arguments
of a node. -/
structure DerivesWellFormed (j : Json) : Prop where
  term : ∀ term, IsTerm j term → term.WellFormed
  argument : ∀ argument, IsArgument j argument → argument.value.WellFormed
  arguments : ∀ items, j = .array items → ∀ item ∈ items, ∀ argument,
    IsArgument item argument → argument.value.WellFormed

/-- A value that is neither a list nor an object is an argument if it is a term. -/
theorem DerivesWellFormed.of_term {j : Json} (hterm : ∀ term, IsTerm j term → term.WellFormed)
    (hobject : ∀ members, j ≠ .object members) (harray : ∀ items, j ≠ .array items) :
    DerivesWellFormed j where
  term := hterm
  argument argument hargument := by
    cases hargument with
    | labeled _ _ _ _ => exact absurd rfl (hobject _)
    | bare _ h => exact hterm _ h
  arguments items h := absurd h (harray items)

theorem wellFormed_of_isNode_of_arguments {tag annotations : Json} {arguments : List Json}
    {node : Node} (h : IsNode (.array [tag, annotations, .array arguments]) node)
    (harguments : ∀ item ∈ arguments, ∀ argument, IsArgument item argument →
      argument.value.WellFormed) : node.WellFormed := by
  cases h with
  | node htag hannotations hselector hargs =>
    refine ⟨?_, Annotations.inRange _, fun argument hargument => ?_⟩
    · cases htag with
      | null =>
        change memberTag ≠ attributeTag
        decide
      | string h => exact h
    · obtain ⟨item, hitem, hderives⟩ := exists_left_of_forall₂ hargs hargument
      exact harguments item (hselector.mem item hitem) argument hderives

theorem derivesWellFormed {j : Json} (h : j.Valid) : DerivesWellFormed j := by
  induction j with
  | null =>
    refine .of_term (fun term hterm => ?_) nofun nofun
    cases hterm
    exact .literal trivial
  | bool b =>
    refine .of_term (fun term hterm => ?_) nofun nofun
    cases hterm
    exact .literal trivial
  | number n =>
    cases h with
    | number hn =>
      refine .of_term (fun term hterm => ?_) nofun nofun
      cases hterm with
      | int _ => exact .literal trivial
      | float _ => exact .literal hn.isFinite_toFloat
  | string s =>
    refine .of_term (fun term hterm => ?_) nofun nofun
    cases hterm
    exact .literal trivial
  | array items ih =>
    cases h with
    | array hitems =>
      have hderives : ∀ item ∈ items, DerivesWellFormed item := fun item hitem =>
        ih item hitem (hitems item hitem)
      have hterm : ∀ term, IsTerm (.array items) term → term.WellFormed := by
        intro term hterm
        cases hterm with
        | reference _ => exact .reference _ (Annotations.inRange _)
        | call hnode =>
          cases id hnode with
          | node _ _ _ _ =>
            have hwellFormed := wellFormed_of_isNode_of_arguments hnode
              ((hderives _ (by simp)).arguments _ rfl)
            exact .call hwellFormed.tag hwellFormed.annotations hwellFormed.arguments
        | list hattribute hnode hterms =>
          refine .list (mt (attributeOutline_iff hterms).mpr hattribute)
            (mt (nodeOutline_iff hterms).mpr hnode) fun term hterm => ?_
          obtain ⟨item, hitem, hisTerm⟩ := exists_left_of_forall₂ hterms hterm
          exact (hderives item hitem).term term hisTerm
      refine ⟨hterm, fun argument hargument => ?_, fun items' heq item hitem => ?_⟩
      · cases hargument with
        | bare _ h => exact hterm _ h
      · cases heq
        exact (hderives item hitem).argument
  | object members ih =>
    cases h with
    | object _ hvalues =>
      refine ⟨nofun, fun argument hargument => ?_, nofun⟩
      cases hargument with
      | labeled _ hvalue _ hterm =>
        have hmem := mem_of_lookup? hvalue
        exact (ih _ hmem (hvalues _ hmem)).term _ hterm
      | bare hobject _ => exact absurd rfl (hobject members)

/-- What the grammar derives from a valid value is well-formed. -/
theorem wellFormed_of_isNode {j : Json} (h : j.Valid) {node : Node} (hnode : IsNode j node) :
    node.WellFormed := by
  cases id hnode with
  | node _ _ _ _ =>
    cases h with
    | array hitems =>
      refine wellFormed_of_isNode_of_arguments hnode ?_
      exact (derivesWellFormed (hitems _ (by simp))).arguments _ rfl

end Wire

/-! ## Writing trees -/

/-- A text that may be absent. -/
def textJson : Option String → Json
  | none => .null
  | some s => .string s

/-- A position that may be absent. -/
def positionJson : Option UInt64 → Json
  | none => .null
  | some n => .number (.natural n)

/-- Annotations with all their members. -/
def Annotations.toJson (a : Annotations) : Json :=
  .object [("column", positionJson a.column), ("file", textJson a.file),
    ("line", positionJson a.line), ("module", textJson a.moduleName), ("source", textJson a.source)]

/-- An argument with both its members, given the value of what it carries. -/
def argumentJson (label : Option String) (value : Json) : Json :=
  .object [("label", textJson label), ("value", value)]

mutual

/-- A term as a value. -/
def Term.toJson : Term → Json
  | .literal l => l.toJson
  | .call node => Node.toJson node
  | .reference name a => .array [.string attributeTag, a.toJson, .string name]
  | .list items => .array (Term.itemsToJson items)

/-- The items of a list as values. -/
def Term.itemsToJson : List Term → List Json
  | [] => []
  | item :: items => item.toJson :: Term.itemsToJson items

/-- A node as a value: its tag, annotations, and the arguments behind the selector. -/
def Node.toJson : Call Term → Json
  | ⟨tag, a, selector, arguments⟩ =>
    .array [.string tag, a.toJson, .array (textJson selector :: Node.argumentsToJson arguments)]

/-- The arguments of a node as values. -/
def Node.argumentsToJson : List (Argument Term) → List Json
  | [] => []
  | ⟨label, value⟩ :: arguments =>
    argumentJson label value.toJson :: Node.argumentsToJson arguments

end

theorem Term.itemsToJson_eq (items : List Term) :
    Term.itemsToJson items = items.map Term.toJson := by
  induction items with
  | nil => rfl
  | cons item items ih => rw [Term.itemsToJson, ih, List.map_cons]

theorem Node.argumentsToJson_eq (arguments : List (Argument Term)) :
    Node.argumentsToJson arguments =
      arguments.map fun argument => argumentJson argument.label argument.value.toJson := by
  induction arguments with
  | nil => rfl
  | cons argument arguments ih =>
    obtain ⟨label, value⟩ := argument
    rw [Node.argumentsToJson, ih, List.map_cons]

/-! ## What is written is valid -/

theorem valid_textJson (text : Option String) : (textJson text).Valid := by
  cases text with
  | none => exact .null
  | some s => exact .string s

theorem valid_positionJson (position : Option UInt64) : (positionJson position).Valid := by
  cases position with
  | none => exact .null
  | some n => exact .number trivial

theorem increasing_of_keys {members : List (String × Json)}
    (h : (members.map Prod.fst).Pairwise (· < ·)) : Increasing members :=
  List.pairwise_map.mp h

theorem Annotations.valid_toJson (a : Annotations) : a.toJson.Valid := by
  have hkeys : ["column", "file", "line", "module", "source"].Pairwise (· < ·) := by decide
  refine .object (increasing_of_keys hkeys) ?_
  simp only [List.forall_mem_cons, List.not_mem_nil, false_imp_iff, implies_true, and_true]
  exact ⟨valid_positionJson _, valid_textJson _, valid_positionJson _, valid_textJson _,
    valid_textJson _⟩

theorem valid_argumentJson (label : Option String) {value : Json} (h : value.Valid) :
    (argumentJson label value).Valid := by
  have hkeys : ["label", "value"].Pairwise (· < ·) := by decide
  refine .object (increasing_of_keys hkeys) ?_
  simpa using ⟨valid_textJson label, h⟩

theorem Literal.valid_numberOfInt (n : Int64) : (numberOfInt n).Valid := by
  unfold numberOfInt
  split
  · assumption
  · trivial

theorem Literal.IsFinite.valid_toJson {l : Literal} (h : l.IsFinite) : l.toJson.Valid := by
  cases l with
  | nil => exact .null
  | bool b => exact .bool b
  | int n => exact .number (valid_numberOfInt n)
  | float x => exact .number h
  | string s => exact .string s

theorem valid_triple {first second third : Json} (hfirst : first.Valid) (hsecond : second.Valid)
    (hthird : third.Valid) : (Json.array [first, second, third]).Valid := by
  refine .array ?_
  simp only [List.forall_mem_cons, List.not_mem_nil, false_imp_iff, implies_true, and_true]
  exact ⟨hfirst, hsecond, hthird⟩

theorem Node.valid_toJson {node : Node}
    (h : ∀ argument ∈ node.arguments, argument.value.toJson.Valid) :
    (Node.toJson node).Valid := by
  obtain ⟨tag, a, selector, arguments⟩ := node
  have harguments : ∀ item ∈ textJson selector :: Node.argumentsToJson arguments, item.Valid := by
    rw [Node.argumentsToJson_eq, List.forall_mem_cons, List.forall_mem_map]
    exact ⟨valid_textJson selector, fun argument hargument =>
      valid_argumentJson argument.label (h argument hargument)⟩
  rw [Node.toJson]
  exact valid_triple (.string tag) a.valid_toJson (.array harguments)

theorem Term.WellFormed.valid_toJson {term : Term} (h : term.WellFormed) : term.toJson.Valid := by
  induction term with
  | literal l =>
    cases h with
    | literal hl => exact hl.valid_toJson
  | call node ih =>
    cases h with
    | call _ _ harguments =>
      exact Node.valid_toJson fun argument hargument =>
        ih argument hargument (harguments argument hargument)
  | reference name a =>
    rw [Term.toJson]
    exact valid_triple (.string attributeTag) a.valid_toJson (.string name)
  | list items ih =>
    cases h with
    | list _ _ hitems =>
      rw [Term.toJson, Term.itemsToJson_eq]
      refine .array ?_
      rw [List.forall_mem_map]
      exact fun item hitem => ih item hitem (hitems item hitem)

namespace Wire

/-! ## What is written can be read -/

theorem isText_textJson (text : Option String) : IsText (some (textJson text)) text := by
  cases text with
  | none => exact .null
  | some s => exact .string s

theorem isPosition_positionJson (position : Option UInt64) :
    IsPosition (some (positionJson position)) position := by
  cases position with
  | none => exact .null
  | some n => exact .number rfl

theorem isAnnotations_toJson (a : Annotations) : IsAnnotations a.toJson a :=
  .object (isText_textJson a.file) (isPosition_positionJson a.line)
    (isPosition_positionJson a.column) (isText_textJson a.moduleName) (isText_textJson a.source)

theorem isArgument_argumentJson {argument : Argument Term} {value : Json}
    (h : IsTerm value argument.value) : IsArgument (argumentJson argument.label value) argument :=
  .labeled (by simp) rfl (isText_textJson argument.label) h

theorem hasSelector_textJson (selector : Option String) (rest : List Json) :
    HasSelector (textJson selector :: rest) selector rest := by
  cases selector with
  | none => exact .null rest
  | some selector => exact .string selector rest

theorem integer?_numberOfInt (n : Int64) : (Literal.numberOfInt n).integer? = some n.toInt := by
  unfold Literal.numberOfInt
  split
  · rfl
  · rename_i hnonneg
    rw [Int64.lt_iff_toInt_lt] at hnonneg
    have htoInt : n.toInt = if 2 * n.toUInt64.toNat < 2 ^ 64 then (n.toUInt64.toNat : Int)
        else n.toUInt64.toNat - (2 ^ 64 : Nat) := BitVec.toInt_eq_toNat_cond n.toBitVec
    have hlt := n.toUInt64.toNat_lt
    rw [Number.integer?, htoInt]
    split
    · rfl
    · rename_i hlarge
      rw [htoInt, if_neg hlarge] at hnonneg
      exact absurd (by change (_ : Int) < 0; omega) hnonneg

theorem isTerm_literal (l : Literal) : IsTerm l.toJson (.literal l) := by
  cases l with
  | nil => exact .null
  | bool b => exact .bool b
  | int n => exact .int (integer?_numberOfInt n)
  | float x => exact .float nofun
  | string s => exact .string s

theorem isNode_toJson {node : Node} (htag : node.tag ≠ attributeTag)
    (h : ∀ argument ∈ node.arguments, IsTerm argument.value.toJson argument.value) :
    IsNode (Node.toJson node) node := by
  obtain ⟨tag, a, selector, arguments⟩ := node
  rw [Node.toJson]
  refine .node (.string htag) (isAnnotations_toJson a) (hasSelector_textJson selector _) ?_
  rw [Node.argumentsToJson_eq, List.forall₂_map_left_iff, List.forall₂_same]
  exact fun argument hargument => isArgument_argumentJson (h argument hargument)

/-- The grammar derives a well-formed term from the value it is written as. -/
theorem isTerm_toJson {term : Term} (h : term.WellFormed) : IsTerm term.toJson term := by
  induction term with
  | literal l => exact isTerm_literal l
  | call node ih =>
    cases h with
    | call htag _ harguments =>
      have hnode : IsNode (Node.toJson node) node := isNode_toJson htag fun argument hargument =>
        ih argument hargument (harguments argument hargument)
      obtain ⟨tag, a, selector, arguments⟩ := node
      exact .call hnode
  | reference name a => exact .reference (isAnnotations_toJson a)
  | list items ih =>
    cases h with
    | list hattribute hnode hitems =>
      have hterms : List.Forall₂ IsTerm (items.map Term.toJson) items := by
        rw [List.forall₂_map_left_iff, List.forall₂_same]
        exact fun item hitem => ih item hitem (hitems item hitem)
      rw [Term.toJson, Term.itemsToJson_eq]
      exact .list (mt (attributeOutline_iff hterms).mp hattribute)
        (mt (nodeOutline_iff hterms).mp hnode) hterms

/-- The reader gives back a well-formed tree from the value it is written as. -/
theorem readNode_toJson {node : Node} (h : node.WellFormed) :
    (Node.toJson node).Valid ∧ readNode (Node.toJson node) = .ok node := by
  have hvalid : (Node.toJson node).Valid := Node.valid_toJson fun argument hargument =>
    (h.arguments argument hargument).valid_toJson
  have hnode : IsNode (Node.toJson node) node := isNode_toJson h.tag fun argument hargument =>
    isTerm_toJson (h.arguments argument hargument)
  exact ⟨hvalid, (readNode_eq_ok_iff hvalid.wellFormed).mpr hnode⟩

theorem wellFormed_of_readNode {j : Json} (hj : j.Valid) {node : Node}
    (h : readNode j = .ok node) : node.WellFormed :=
  wellFormed_of_isNode hj ((readNode_eq_ok_iff hj.wellFormed).mp h)

/-- **The well-formed trees are those that can be read.**  A tree is read from some valid value
exactly if it is well-formed, and every tree that is parsed is well-formed. -/
theorem readNode_image :
    (∀ node : Node, (∃ j : Json, j.Valid ∧ readNode j = .ok node) ↔ node.WellFormed) ∧
    ∀ text node, parseNode text = .ok node → node.WellFormed := by
  refine ⟨fun node => ⟨fun ⟨j, hj, h⟩ => wellFormed_of_readNode hj h,
    fun h => ⟨Node.toJson node, readNode_toJson h⟩⟩, fun text node h => ?_⟩
  unfold parseNode at h
  split at h
  · cases h
  · rename_i j hparse
    split at h
    · cases h
    · rename_i hread
      cases h
      exact wellFormed_of_readNode (Json.valid_of_parse hparse) hread

/-- A list that has the outline of a node but for its last item is read, and one that has the whole
outline is not, as it would be read as a call. -/
theorem readNode_image_shadow :
    let text := "[\"shadow\",null,[\"soft\",[\"inset\",null,true]]]".toUTF8.toList
    let shadow (last : Term) : Node := ⟨"shadow", .empty, some "soft",
      [⟨none, .list [.literal (.string "inset"), .literal .nil, last]⟩]⟩
    parseNode text = .ok (shadow (.literal (.bool true))) ∧
      (shadow (.literal (.bool true))).WellFormed ∧
      ¬∃ j : Json, j.Valid ∧ readNode j = .ok (shadow (.list [])) := by
  intro text shadow
  have hparse : parseNode text = .ok (shadow (.literal (.bool true))) := by
    have hjson : Json.parse text = .ok (.array [.string "shadow", .null,
        .array [.string "soft", .array [.string "inset", .null, .bool true]]]) := by
      simp only [text]
      exact Json.parse_toUTF8 (by decide +kernel) (by simp) (by simp [Json.maxDepth])
    rw [parseNode, hjson]
    rfl
  refine ⟨hparse, readNode_image.2 text _ hparse, fun hread => ?_⟩
  have hlist := ((readNode_image.1 (shadow (.list []))).mp hread).arguments _ List.mem_cons_self
  cases hlist with
  | list _ hnode _ => exact hnode ⟨_, _, rfl, .inr ⟨_, rfl⟩, rfl⟩

end Wire

end DeferredStyle
