import DeferredStyle.Proofs.Candidates
import DeferredStyle.Proofs.Finishing
import DeferredStyle.Proofs.Hexadecimal
import DeferredStyle.Proofs.Inventory
import DeferredStyle.Wire.Reader

/-!
# Spellings of cases

The name of a case without parameters may be the selector of a node, its only argument, or its only
argument behind the name of the type.  For the types of the standard vocabulary this makes no
difference, as long as no shape with parameters takes the name: as its selector, or as a text.  The
literal decoders know the same names.

* `Spelling` — the three ways; `Decoder.caseOf?` — the case they reach.
* `Decoder.toOption_decode_selector`, `Decoder.toOption_decode_spelling` — where no shape with
  parameters succeeds, a node is decoded as the case it names.
* `Vocabulary.HasShape.fails_of_no_argument`, `Vocabulary.HasShape.fails_of_text` — none of the
  standard vocabulary does, unless the name is a color.
* `Vocabulary.literals_of_mem_tabled` — cases and literals of one table have the same names and
  values; `Vocabulary.lookup?_namedColors`, `Vocabulary.caseOf?_color_iff` — so have those of colors,
  which have two.
* `case_spellings_agree` — the spellings of all types on all platforms.
-/

set_option autoImplicit false

namespace DeferredStyle

/-! ## Three spellings -/

/-- The ways to write a case. -/
inductive Spelling where
  /-- The name is the selector. -/
  | selector
  /-- The name is the only argument. -/
  | argument
  /-- The name is the only argument, and the name of the type is the selector. -/
  | qualified

namespace Spelling

/-- The argument list of a document. -/
def items (typeName name : String) : Spelling → List Json
  | selector => [.string name]
  | argument => [.null, .string name]
  | qualified => [.string typeName, .string name]

/-- The document of a node. -/
def document (tag annotations : Json) (typeName name : String) (spelling : Spelling) : Json :=
  .array [tag, annotations, .array (spelling.items typeName name)]

/-- The selector of the node. -/
def selector? (typeName name : String) : Spelling → Option String
  | selector => some name
  | argument => none
  | qualified => some typeName

/-- The arguments of the node. -/
def arguments (name : String) : Spelling → List (Argument Term)
  | selector => []
  | argument => [⟨none, .literal (.string name)⟩]
  | qualified => [⟨none, .literal (.string name)⟩]

/-- The node with a tag and annotations. -/
def node (head : String × Annotations) (typeName name : String) (spelling : Spelling) : Node :=
  ⟨head.1, head.2, spelling.selector? typeName name, spelling.arguments name⟩

/-- The document is read as the node. -/
theorem readNode_document {tag annotations : Json} {head : String × Annotations}
    (hhead : Wire.readHead tag annotations = .ok head) (typeName name : String)
    (spelling : Spelling) :
    Wire.readNode (spelling.document tag annotations typeName name) =
      .ok (spelling.node head typeName name) := by
  cases spelling
  all_goals
    rw [document, Wire.readNode, items, Wire.readElements, hhead]
    rfl

/-- Each spelling names the case. -/
theorem namesCase (head : String × Annotations) (typeName name : String) (spelling : Spelling) :
    (spelling.node head typeName name).NamesCase name := by
  cases spelling with
  | selector => exact .inl ⟨rfl, rfl⟩
  | argument => exact .inr rfl
  | qualified => exact .inr rfl

end Spelling

/-! ## Reaching a case -/

/-- The cases of a catalog are picked by their names, and by nothing else. -/
def Catalog.KeyedByName (catalog : Catalog) : Prop :=
  ∀ shape ∈ catalog.shapes, ∀ name, shape.caseName? = some name → shape.keys = [name]

/-- What the first case with a name is decoded as. -/
def Decoder.caseOf? (d : Decoder) (catalog : Catalog) (name : String) : Option Resolvable :=
  (catalog.shapes.find? fun shape => shape.caseName? == some name).map fun case =>
    finishShape d.folds (case.label catalog.typeName) case []

theorem Node.NamesCase.unique {node : Node} {name name' : String} (h : node.NamesCase name)
    (h' : node.NamesCase name') : name = name' :=
  Option.some.inj
    ((trailingCaseName?_eq_some_iff.mpr h).symm.trans (trailingCaseName?_eq_some_iff.mpr h'))

/-- Results with the same value, if any, all fail or all succeed. -/
theorem all_fail_or_all_ok {ι ε α : Type} {result : ι → Except ε α} {value? : Option α}
    (h : ∀ i, (result i).toOption = value?) :
    (∀ i, ∃ e, result i = .error e) ∨ ∃ a, ∀ i, result i = .ok a := by
  cases value? with
  | some a => exact .inr ⟨a, fun i => toOption_eq_some_iff.mp (h i)⟩
  | none =>
    refine .inl fun i => ?_
    cases hresult : result i with
    | error e => exact ⟨e, rfl⟩
    | ok a =>
      have hnone := h i
      rw [hresult] at hnone
      cases hnone

section Catalogs

variable {d : Decoder} {catalog : Catalog} {node : Node} {name : String}

/-- Where every shape with parameters fails, a node is decoded as the first case it names. -/
theorem Decoder.toOption_decode_of_fails (hname : node.NamesCase name)
    (hfails : ∀ shape ∈ catalog.candidates node.selector, shape.isBareCase = false →
      ∃ e, d.attempt catalog.typeName node shape = .error e) :
    (d.decode node catalog).toOption =
      ((catalog.candidates node.selector).find? fun shape => shape.caseName? == some name).map
        fun case => finishShape d.folds (case.label catalog.typeName) case [] := by
  generalize hresult : d.decode node catalog = result
  cases Decoder.outcome_of_decode hresult with
  | shape hshapes hbefore hparams hok =>
    obtain ⟨e, he⟩ := hfails _ (by rw [hshapes]; simp) hparams
    rw [hok] at he
    cases he
  | case _ hname' hshapes hbefore hcase =>
    obtain rfl := hname.unique hname'
    have hfind : (catalog.candidates node.selector).find?
        (fun shape => shape.caseName? == some name) = some _ :=
      List.find?_eq_some_iff_append.mpr ⟨by simpa using hcase, _, _, hshapes, fun s hs => by
        simpa using hbefore s hs⟩
    rw [hfind]
    rfl
  | failure _ hcases =>
    have hnone : (catalog.candidates node.selector).find?
        (fun shape => shape.caseName? == some name) = none := by
      refine List.find?_eq_none.mpr fun shape hshape hcase => ?_
      have hcase : shape.caseName? = some name := by simpa using hcase
      cases hcases with
      | none hbare =>
        have := hbare shape hshape
        rw [isBareCase_of_caseName? hcase] at this
        cases this
      | unnamed _ hunnamed => exact hunnamed name hname
      | unknown _ hname' hshapes =>
        obtain rfl := hname.unique hname'
        exact hshapes shape hshape hcase
    rw [hnone]
    rfl

/-- What is looked for is still found among what it is part of. -/
theorem find?_filter_of_imp {α : Type} {p q : α → Bool} {as : List α}
    (h : ∀ a ∈ as, q a = true → p a = true) : (as.filter p).find? q = as.find? q := by
  induction as with
  | nil => rfl
  | cons a as ih =>
    obtain ⟨ha, has⟩ := List.forall_mem_cons.mp h
    cases hq : q a with
    | true => rw [List.filter_cons_of_pos (ha hq), List.find?_cons, List.find?_cons, hq]
    | false =>
      rw [List.find?_cons, hq, ← ih has, List.filter_cons]
      split
      · rw [List.find?_cons, hq]
      · rfl

/-- The name of a case as a selector leaves the case. -/
theorem Catalog.find?_candidates (h : catalog.KeyedByName) (name : String) :
    ((catalog.candidates (some name)).find? fun shape => shape.caseName? == some name) =
      catalog.shapes.find? fun shape => shape.caseName? == some name := by
  by_cases hkeyed : name ≠ catalog.typeName ∧ ∃ shape ∈ catalog.shapes, shape.isKeyedBy name
  · rw [candidates_of_keyed hkeyed.1 hkeyed.2]
    refine find?_filter_of_imp fun shape hshape hcase => ?_
    have hkeys := h shape hshape name (by simpa using hcase)
    simp [Shape.isKeyedBy, hkeys]
  · rw [candidates_of_whole fun key hselector hkey shape hshape hpicks => hkeyed ?_]
    cases hselector
    exact ⟨hkey, shape, hshape, hpicks⟩

variable {head : String × Annotations}

/-- A selector without arguments is decoded as the case with its name, as long as no shape with
parameters goes without arguments. -/
theorem Decoder.toOption_decode_selector (hkeys : catalog.KeyedByName)
    (hfails : ∀ shape ∈ catalog.shapes, shape.isBareCase = false →
      ∃ e, d.attempt catalog.typeName
        (Spelling.selector.node head catalog.typeName name) shape = .error e) :
    (d.decode (Spelling.selector.node head catalog.typeName name) catalog).toOption =
      d.caseOf? catalog name := by
  rw [toOption_decode_of_fails (Spelling.namesCase _ _ _ _) fun shape hshape =>
    hfails shape (Catalog.mem_of_mem_candidates hshape)]
  exact congrArg _ (Catalog.find?_candidates hkeys name)

/-- Every spelling is decoded as the case with its name, as long as no shape with parameters takes
the name. -/
theorem Decoder.toOption_decode_spelling (hkeys : catalog.KeyedByName)
    (hfails : ∀ (spelling : Spelling), ∀ shape ∈ catalog.shapes, shape.isBareCase = false →
      ∃ e, d.attempt catalog.typeName
        (spelling.node head catalog.typeName name) shape = .error e)
    (spelling : Spelling) :
    (d.decode (spelling.node head catalog.typeName name) catalog).toOption =
      d.caseOf? catalog name := by
  cases spelling with
  | selector => exact toOption_decode_selector hkeys (hfails .selector)
  | argument => exact toOption_decode_of_fails (Spelling.namesCase _ _ _ .argument) (hfails _)
  | qualified =>
    rw [toOption_decode_of_fails (Spelling.namesCase _ _ _ _) fun shape hshape =>
      hfails _ shape (Catalog.mem_of_mem_candidates hshape)]
    have hwhole : catalog.candidates (some catalog.typeName) = catalog.shapes :=
      Catalog.candidates_of_whole fun key hselector hkey => by
        cases hselector
        exact absurd rfl hkey
    exact congrArg (fun shapes : List Shape => (shapes.find? _).map _) hwhole

end Catalogs

/-! ## The standard vocabulary -/

theorem decodeLeaf_of_refused {leaf : Leaf} {rule : Rule} {label : String} {literal : Literal}
    (h : ∀ value, leaf.decodeLiteral literal ≠ .ok value) :
    decodeLeaf leaf rule label literal = .error (incorrect label rule (.literal literal)) := by
  rw [decodeLeaf]
  cases hliteral : leaf.decodeLiteral literal with
  | error reason => rfl
  | ok value => exact absurd hliteral (h value)

/-- A shape with one positional parameter does not take a literal that the parameter refuses. -/
theorem Decoder.attempt_of_refused {d : Decoder} {typeName : String} {node : Node} {shape : Shape}
    {rule : Rule} {literal : Literal} {e : DecodeError} (hshape : shape.params = [.positional rule])
    (hnode : node.arguments = [⟨none, .literal literal⟩])
    (h : decodeLiteral d.registry rule "_" literal = .error e) :
    d.attempt typeName node shape = .error e := by
  have hparam : decodeParam d.registry (.positional rule)
      (.given (d.decodeTerm (.literal literal))) = .error e := by
    show (decodeLiteral d.registry rule "_" literal).map Resolvable.constant = .error e
    rw [h]
    rfl
  rw [d.attempt_eq, hshape, hnode]
  show (decodeParams d.registry [.positional rule] [.given _]).map _ = .error e
  rw [decodeParams, hparam]
  rfl

namespace Vocabulary

/-- Types have different names. -/
theorem lastNamed?_typeName : ∀ source ∈ types, lastNamed? source.typeName types = some source := by
  intro source hsource
  simp only [types, List.mem_cons, List.not_mem_nil, or_false] at hsource
  rcases hsource with rfl | rfl | rfl | rfl | rfl | rfl | rfl | rfl <;> rfl

theorem catalog?_of_mem_types {source : Catalog} (h : source ∈ types) (platform : Platform) :
    (Registry.standard platform).catalog? source.typeName =
      some (source.forPlatform platform) := by
  rw [Registry.catalog?_standard, lastNamed?_typeName source h]
  rfl

namespace HasShape

variable {typeName : String} {shape : Shape}

/-- Cases are picked by their names. -/
theorem keys_of_caseName? (h : HasShape typeName shape) {name : String}
    (hcase : shape.caseName? = some name) : shape.keys = [name] := by
  cases h <;> cases hcase <;> rfl

/-- Only a paint is a case that some platforms lack. -/
theorem isAvailable_of_case (h : HasShape typeName shape) (htype : typeName ≠ "Paint")
    (hcase : shape.isBareCase = true) (platform : Platform) :
    shape.availability.isAvailableOn platform = true := by
  cases h with
  | windowBackground => exact absurd rfl htype
  | named => cases platform <;> rfl
  | schemeColor => cases platform <;> rfl
  | _ => cases hcase

variable (htype : typeName ∈ types.map Catalog.typeName) (hparams : shape.isBareCase = false)

include htype hparams

/-- No shape with parameters goes without arguments. -/
theorem fails_of_no_argument (h : HasShape typeName shape) (d : Decoder) {node : Node}
    (hnode : node.arguments = []) : ∃ e, d.attempt typeName node shape = .error e := by
  rw [d.attempt_eq, hnode]
  cases h with
  | named | schemeColor | windowBackground => cases hparams
  | hexColor | componentColor | fadedColor | solid | tinted | gradient | fadedPaint | systemFont
  | weightedFont => exact ⟨_, rfl⟩
  | _ => exact absurd htype (by decide)

/-- No shape with parameters takes a text alone, unless the text is a color. -/
theorem fails_of_text (h : HasShape typeName shape) (platform : Platform) (folds : Bool)
    {node : Node} {text : String} (hnode : node.arguments = [⟨none, .literal (.string text)⟩])
    (hcolor : typeName = "Color" → Color.ofHex? (Text.trim text) = none)
    (hpaint : typeName = "Paint" → ∀ value, colorLeaf.decodeLiteral (.string text) ≠ .ok value) :
    ∃ e, (Decoder.mk (.standard platform) folds).attempt typeName node shape = .error e := by
  have hmem : color ∈ types := by simp [types]
  have hcatalog := catalog?_of_mem_types hmem platform
  cases h with
  | named | schemeColor | windowBackground => cases hparams
  | componentColor | fadedColor | gradient | fadedPaint | systemFont | weightedFont =>
    rw [Decoder.attempt_eq, hnode]
    exact ⟨_, rfl⟩
  | hexColor =>
    refine ⟨_, Decoder.attempt_of_refused rfl hnode (decodeLeaf_of_refused fun value hvalue => ?_)⟩
    simp only [hexLeaf, hexLiteral, hcolor rfl] at hvalue
    cases hvalue
  | solid | tinted =>
    have hrefused : decodeCoreLiteral (.standard platform) (.type color.typeName) "_"
        (.string text) = .error (incorrect "_" (.type "Color") (.literal (.string text))) := by
      rw [decodeCoreLiteral, hcatalog]
      exact decodeLeaf_of_refused (hpaint rfl)
    exact ⟨_, Decoder.attempt_of_refused rfl hnode hrefused⟩
  | _ => exact absurd htype (by decide)

end HasShape

/-- The cases of the types are picked by their names. -/
theorem keyedByName_of_mem_types {source : Catalog} (h : source ∈ types) (platform : Platform) :
    (source.forPlatform platform).KeyedByName := by
  intro shape hshape name hcase
  have hmem : shape ∈ source.shapes := (List.mem_filter.mp hshape).1
  exact (hasShape_of_mem_types source h shape hmem).keys_of_caseName? hcase

/-! ## Cases and literals -/

theorem find?_casesOf {α : Type} (wrap : α → Value) (names : List (String × α)) (name : String) :
    ((casesOf wrap names).find? fun shape => shape.caseName? == some name) =
      (Table.lookup? name names).map fun a => .bareCase name (.constant (wrap a)) := by
  induction names with
  | nil => rfl
  | cons entry names ih =>
    obtain ⟨key, a⟩ := entry
    show List.find? _ (Shape.bareCase key (.constant (wrap a)) :: casesOf wrap names) = _
    rw [List.find?_cons, Table.lookup?]
    by_cases hkey : name = key
    · subst hkey
      simp [Shape.caseName?, Shape.bareCase, Shape.plain]
    · have hne : (Shape.bareCase key (.constant (wrap a))).caseName? ≠ some name := fun h =>
        hkey (Option.some.inj h).symm
      rw [if_neg hkey, beq_eq_false_iff_ne.mpr hne, ih]

/-- All cases of a type but paints are on every platform. -/
theorem find?_forPlatform {source : Catalog} (h : source ∈ types)
    (htype : source.typeName ≠ "Paint") (platform : Platform) (name : String) :
    ((source.forPlatform platform).shapes.find? fun shape => shape.caseName? == some name) =
      source.shapes.find? fun shape => shape.caseName? == some name := by
  refine find?_filter_of_imp fun shape hshape hcase => ?_
  have hcase : shape.caseName? = some name := by simpa using hcase
  exact (hasShape_of_mem_types source h shape hshape).isAvailable_of_case htype
    (isBareCase_of_caseName? hcase) platform

theorem decodeLiteral_leafOf_iff {α : Type} {typeName : String} {wrap : α → Value}
    {names : List (String × α)} {text : String} {value : Value} :
    (leafOf typeName wrap names).decodeLiteral (.string text) = .ok value ↔
      (Table.lookup? (Text.trim text) names).map wrap = some value := by
  show Leaf.namedLiteral typeName (valueNamed? wrap names) (.string text) = .ok value ↔ _
  rw [Leaf.namedLiteral, valueNamed?]
  cases (Table.lookup? (Text.trim text) names).map wrap <;> simp

section Decoding

variable {source : Catalog} (h : source ∈ types) (platform : Platform) (folds : Bool)
  (head : String × Annotations)

include h

theorem decodeType_of_mem_types (node : Node) :
    (Decoder.mk (.standard platform) folds).decodeType node source.typeName =
      (Decoder.mk (.standard platform) folds).decode node (source.forPlatform platform) := by
  rw [Decoder.decodeType, catalog?_of_mem_types h platform]

/-- A selector without arguments is decoded as the case with its name. -/
theorem toOption_decodeType_selector (name : String) :
    ((Decoder.mk (.standard platform) folds).decodeType
        (Spelling.selector.node head source.typeName name) source.typeName).toOption =
      (Decoder.mk (.standard platform) folds).caseOf? (source.forPlatform platform) name := by
  rw [decodeType_of_mem_types h platform folds]
  refine Decoder.toOption_decode_selector (keyedByName_of_mem_types h platform) ?_
  intro shape hshape hparams
  have hmem : shape ∈ source.shapes := (List.mem_filter.mp hshape).1
  exact (hasShape_of_mem_types source h shape hmem).fails_of_no_argument
    (List.mem_map_of_mem h) hparams _ rfl

/-- Every spelling is decoded as the case with its name, unless the name is a color. -/
theorem toOption_decodeType_spelling {name : String}
    (hcolor : source.typeName = "Color" → Color.ofHex? (Text.trim name) = none)
    (hpaint : source.typeName = "Paint" →
      ∀ value, colorLeaf.decodeLiteral (.string name) ≠ .ok value) (spelling : Spelling) :
    ((Decoder.mk (.standard platform) folds).decodeType
        (spelling.node head source.typeName name) source.typeName).toOption =
      (Decoder.mk (.standard platform) folds).caseOf? (source.forPlatform platform) name := by
  rw [decodeType_of_mem_types h platform folds]
  refine Decoder.toOption_decode_spelling (keyedByName_of_mem_types h platform) ?_ spelling
  intro spelling shape hshape hparams
  have hmem : shape ∈ source.shapes := (List.mem_filter.mp hshape).1
  have hshape := hasShape_of_mem_types source h shape hmem
  have htype : source.typeName ∈ types.map Catalog.typeName := List.mem_map_of_mem h
  cases spelling with
  | selector => exact hshape.fails_of_no_argument htype hparams _ rfl
  | argument | qualified =>
    exact hshape.fails_of_text htype hparams platform folds rfl hcolor hpaint

/-- Where the cases of a type come from a table of names, they are its literals. -/
theorem decodeLiteral_leafOf_iff_case {α : Type} {wrap : α → Value} {names : List (String × α)}
    (htype : source.typeName ≠ "Paint")
    (hcases : ∀ name, (source.shapes.find? fun shape => shape.caseName? == some name) =
      (casesOf wrap names).find? fun shape => shape.caseName? == some name)
    (text : String) (value : Value) :
    (leafOf source.typeName wrap names).decodeLiteral (.string text) = .ok value ↔
      (Registry.standard platform).decoder.decodeType
          (Spelling.selector.node head source.typeName (Text.trim text)) source.typeName =
        .ok (.constant value) := by
  rw [decodeLiteral_leafOf_iff, ← toOption_eq_some_iff, Registry.decoder,
    toOption_decodeType_selector h, Decoder.caseOf?, find?_forPlatform h htype, hcases,
    find?_casesOf]
  cases Table.lookup? (Text.trim text) names with
  | none => simp
  | some a =>
    show some (wrap a) = some value ↔
      some (Resolvable.constant (wrap a)) = some (Resolvable.constant value)
    simp

end Decoding

/-- The types with a table of names, whose literals are their cases. -/
def tabled : List Catalog := [font, fontWeight, fontDesign, alignment, edgeSet]

theorem literals_of_mem_tabled {source : Catalog} (h : source ∈ tabled) (platform : Platform) :
    ∃ catalog leaf, (Registry.standard platform).catalog? source.typeName = some catalog ∧
      catalog.literal = some leaf ∧
      ∀ (text : String) (value : Value) (head : String × Annotations),
        leaf.decodeLiteral (.string text) = .ok value ↔
          (Registry.standard platform).decoder.decodeType
              (Spelling.selector.node head source.typeName (Text.trim text)) source.typeName =
            .ok (.constant value) := by
  have hmem : source ∈ types := by
    simp only [tabled, List.mem_cons, List.not_mem_nil, or_false] at h
    rcases h with rfl | rfl | rfl | rfl | rfl <;> simp [types]
  simp only [tabled, List.mem_cons, List.not_mem_nil, or_false] at h
  rcases h with rfl | rfl | rfl | rfl | rfl
  all_goals
    exact ⟨_, _, catalog?_of_mem_types hmem platform, rfl, fun text value head =>
      decodeLiteral_leafOf_iff_case hmem platform head (by decide) (fun _ => rfl) text value⟩

/-- The cases of colors and the literals of colors have tables of their own, which agree on every
text. -/
theorem lookup?_namedColors (name : String) :
    Table.lookup? name namedColors = Color.named? name := by
  unfold Color.named?
  split
  case h_12 => simp_all [namedColors, Table.lookup?]
  all_goals rfl

/-- The named colors are the only constants among the cases of colors: the others follow the color
scheme. -/
theorem caseOf?_color_iff (platform : Platform) {name : String} {value : Value} :
    (Registry.standard platform).decoder.caseOf? (color.forPlatform platform) name =
        some (.constant value) ↔
      ∃ c, Color.named? name = some c ∧ value = .color c := by
  have hmem : color ∈ types := by simp [types]
  have htype : color.typeName ≠ "Paint" := by decide
  let isCase := fun shape : Shape => shape.caseName? == some name
  have hcases : color.shapes.find? isCase = ((casesOf .color namedColors).find? isCase).or
      ([(Shape.bareCase "primary" primary).asContextual,
        (Shape.bareCase "secondary" secondary).asContextual].find? isCase) :=
    List.find?_append
  rw [Decoder.caseOf?, find?_forPlatform hmem htype, hcases, find?_casesOf,
    lookup?_namedColors]
  cases Color.named? name with
  | some c =>
    show some (Resolvable.constant (.color c)) = some (.constant value) ↔ _
    simp [eq_comm]
  | none =>
    simp only [Option.map_none, Option.none_or, reduceCtorEq, false_and, exists_false, iff_false]
    intro hvalue
    obtain ⟨shape, hshape, hfinish⟩ := Option.map_eq_some_iff.mp hvalue
    have hscheme := List.mem_of_find?_eq_some hshape
    simp only [List.mem_cons, List.not_mem_nil, or_false] at hscheme
    rcases hscheme with rfl | rfl <;> cases hfinish

/-- Color literals are names and hexadecimal texts. -/
theorem exists_colorLiteral_iff {text : String} :
    (∃ value, colorLeaf.decodeLiteral (.string text) = .ok value) ↔
      (∃ c, Color.named? (Text.trim text) = some c) ∨
        ∃ digits, Color.IsHexText digits ∧ Color.Stands (Text.trim text) digits := by
  rw [← Color.ofHex?_isSome_iff]
  show (∃ value, colorLiteral (.string text) = .ok value) ↔ _
  rw [colorLiteral, colorOfText?]
  cases Color.named? (Text.trim text) <;> cases Color.ofHex? (Text.trim text) <;> simp

end Vocabulary

/-! ## All spellings -/

/-- **All spellings of a case agree, and the literals of a type are its cases.**  A node with a name
as its selector, as its only argument, or as its only argument behind the name of the type, fails in
all three spellings or has one and the same tree in all three; only for colors and paints the name
must not be a color that a shape with parameters takes.  In particular this holds for the names of
the types and the names that pick shapes with parameters.  A text is a literal of a type with named
values exactly if it is a case of the type without the blanks around it.  The constant cases of
colors are the named colors, and these and the hexadecimal texts are the literals of colors. -/
theorem case_spellings_agree (platform : Platform) :
    (∀ tag annotations head, Wire.readHead tag annotations = .ok head →
      ∀ (typeName name : String) (spelling : Spelling),
        Wire.readNode (spelling.document tag annotations typeName name) =
          .ok (spelling.node head typeName name)) ∧
    (∀ typeName catalog, (Registry.standard platform).catalog? typeName = some catalog →
      ∀ name : String,
        (typeName = "Color" → Color.ofHex? (Text.trim name) = none) →
        (typeName = "Paint" →
          ∀ value, Vocabulary.colorLeaf.decodeLiteral (.string name) ≠ .ok value) →
        ∀ (folds : Bool) (head : String × Annotations),
          (∀ spelling : Spelling, ∃ failures, (Decoder.mk (.standard platform) folds).decodeType
            (spelling.node head typeName name) typeName = .error failures) ∨
          ∃ r, ∀ spelling : Spelling, (Decoder.mk (.standard platform) folds).decodeType
            (spelling.node head typeName name) typeName = .ok r) ∧
    (∀ typeName ∈ ["Font", "FontWeight", "FontDesign", "Alignment", "EdgeSet"],
      ∃ catalog leaf, (Registry.standard platform).catalog? typeName = some catalog ∧
        catalog.literal = some leaf ∧
        ∀ (text : String) (value : Value) (head : String × Annotations),
          leaf.decodeLiteral (.string text) = .ok value ↔
            (Registry.standard platform).decoder.decodeType
                (Spelling.selector.node head typeName (Text.trim text)) typeName =
              .ok (.constant value)) ∧
    (∀ (name : String) (value : Value) (head : String × Annotations),
      (Registry.standard platform).decoder.decodeType
          (Spelling.selector.node head "Color" name) "Color" = .ok (.constant value) ↔
        ∃ c, Color.named? name = some c ∧ value = .color c) ∧
    ∃ catalog leaf, (Registry.standard platform).catalog? "Color" = some catalog ∧
      catalog.literal = some leaf ∧
      ∀ text : String, (∃ value, leaf.decodeLiteral (.string text) = .ok value) ↔
        (∃ c, Color.named? (Text.trim text) = some c) ∨
          ∃ digits, Color.IsHexText digits ∧ Color.Stands (Text.trim text) digits := by
  have hcolor : Vocabulary.color ∈ Vocabulary.types := by simp [Vocabulary.types]
  refine ⟨fun tag annotations head hhead typeName name spelling =>
    Spelling.readNode_document hhead typeName name spelling, ?_, ?_, ?_, ?_⟩
  · intro typeName catalog hcatalog name hhex hpaint folds head
    rw [Registry.catalog?_standard] at hcatalog
    obtain ⟨source, hsource, -⟩ := Option.map_eq_some_iff.mp hcatalog
    obtain rfl := typeName_of_lastNamed? hsource
    exact all_fail_or_all_ok <| Vocabulary.toOption_decodeType_spelling (mem_of_lastNamed? hsource)
      platform folds head hhex hpaint
  · intro typeName htype
    obtain ⟨source, hsource, rfl⟩ :=
      List.mem_map.mp (show typeName ∈ Vocabulary.tabled.map Catalog.typeName from htype)
    exact Vocabulary.literals_of_mem_tabled hsource platform
  · intro name value head
    rw [← toOption_eq_some_iff, ← Vocabulary.caseOf?_color_iff platform]
    exact Eq.congr_left (Vocabulary.toOption_decodeType_selector hcolor platform true head name)
  · exact ⟨_, _, Vocabulary.catalog?_of_mem_types hcolor platform, rfl,
      fun text => Vocabulary.exists_colorLiteral_iff⟩

/-- A case of paints that one platform has, in all spellings; and a font weight with blanks around
it. -/
theorem case_spellings_agree_windowBackground :
    let head := (memberTag, Annotations.empty)
    let document := Spelling.document .null .null "Paint" "windowBackground"
    Wire.readHead .null .null = .ok head ∧
      (∀ spelling : Spelling, Wire.readNode (document spelling) =
        .ok (spelling.node head "Paint" "windowBackground")) ∧
      (∀ value, Vocabulary.colorLeaf.decodeLiteral (.string "windowBackground") ≠ .ok value) ∧
      (∃ r, ∀ spelling : Spelling, (Decoder.mk (.standard .macos) true).decodeType
        (spelling.node head "Paint" "windowBackground") "Paint" = .ok r) ∧
      (Registry.standard .macos).decoder.decodeType
        (Spelling.selector.node head "FontWeight" (Text.trim " bold\n")) "FontWeight" =
          .ok (.constant (.fontWeight .bold)) := by
  intro head document
  have hhead : Wire.readHead .null .null = .ok head := rfl
  have hpaint : ∀ value, Vocabulary.colorLeaf.decodeLiteral (.string "windowBackground") ≠
      .ok value := fun value h => nomatch h
  obtain ⟨hread, hagree, hliterals, -⟩ := case_spellings_agree .macos
  refine ⟨hhead, fun spelling => hread _ _ head hhead _ _ spelling, hpaint, ?_, ?_⟩
  · rcases hagree "Paint" _ rfl "windowBackground" (by decide) (fun _ => hpaint) true head with
      hfails | hok
    · obtain ⟨failures, h⟩ := hfails .selector
      cases h
    · exact hok
  · obtain ⟨catalog, leaf, hcatalog, hleaf, hiff⟩ := hliterals "FontWeight" (by decide)
    cases hcatalog
    cases hleaf
    exact (hiff " bold\n" _ head).mp rfl

end DeferredStyle
