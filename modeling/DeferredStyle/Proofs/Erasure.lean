import DeferredStyle.Proofs.Simulation
import DeferredStyle.Vocabulary.Standard

/-!
# Marks that decoding ignores

A node carries two kinds of marks that say nothing about its value: the annotations of where it was
written, and its tag, which names a modifier at the root of a tree and nothing below it.  Decoding
against a catalog hands both on to messages and reads neither.

* `Term.mapMarks`, `Call.mapMarks` — change every tag and every annotation in a tree.
* `DecodeError.eraseAnnotations`, `Failures.eraseAnnotations` — failures without the places they
  point to.
* `Oblivious` — relations between failures that do not tell a node from one with other marks.
* `decode_mapMarks` — a node and the node with other marks decode alike under such relations.
* `decode_ignores_marks` — nodes that differ in marks decode alike.
-/

set_option autoImplicit false

namespace DeferredStyle

/-! ## Marks -/

mutual

/-- A term with `tag` applied to every tag and `mark` to every annotation. -/
def Term.mapMarks (tag : String → String) (mark : Annotations → Annotations) : Term → Term
  | .literal l => .literal l
  | .call node => .call (Call.mapMarks tag mark node)
  | .reference name annotations => .reference name (mark annotations)
  | .list items => .list (Term.mapMarksEach tag mark items)

/-- Each of several terms with other marks. -/
def Term.mapMarksEach (tag : String → String) (mark : Annotations → Annotations) :
    List Term → List Term
  | [] => []
  | item :: items => item.mapMarks tag mark :: Term.mapMarksEach tag mark items

/-- A node with `tag` applied to every tag and `mark` to every annotation. -/
def Call.mapMarks (tag : String → String) (mark : Annotations → Annotations) :
    Call Term → Call Term
  | ⟨name, annotations, selector, arguments⟩ =>
    ⟨tag name, mark annotations, selector, Call.mapMarksArguments tag mark arguments⟩

/-- Arguments whose terms have other marks. -/
def Call.mapMarksArguments (tag : String → String) (mark : Annotations → Annotations) :
    List (Argument Term) → List (Argument Term)
  | [] => []
  | ⟨label, value⟩ :: arguments =>
    ⟨label, value.mapMarks tag mark⟩ :: Call.mapMarksArguments tag mark arguments

end

/-- A node without annotations: its own, those of the nodes inside it and those of references. -/
def Node.eraseAnnotations (node : Node) : Node :=
  node.mapMarks id fun _ => .empty

/-- A node without annotations and without tags. -/
def Node.eraseMarks (node : Node) : Node :=
  node.mapMarks (fun _ => memberTag) fun _ => .empty

mutual

/-- An error without the annotations of the failures inside it. -/
def DecodeError.eraseAnnotations : DecodeError → DecodeError
  | .nested label failures => .nested label (DecodeError.eraseFailures failures)
  | e => e

/-- Failures without annotations. -/
def DecodeError.eraseFailures : Failures DecodeError → Failures DecodeError
  | ⟨typeName, entries, _⟩ => ⟨typeName, DecodeError.eraseEntries entries, .empty⟩

/-- Attempts whose errors have no annotations. -/
def DecodeError.eraseEntries : List (Attempt DecodeError) → List (Attempt DecodeError)
  | [] => []
  | ⟨shape, error⟩ :: entries => ⟨shape, error.eraseAnnotations⟩ :: DecodeError.eraseEntries entries

end

/-- Failures without annotations: their own and those of the failures inside them. -/
def Failures.eraseAnnotations (failures : DecodeFailures) : DecodeFailures :=
  DecodeError.eraseFailures failures

/-! ## Terms with other marks -/

section Terms

variable (tag : String → String) (mark : Annotations → Annotations)

theorem Term.mapMarksEach_eq (items : List Term) :
    Term.mapMarksEach tag mark items = items.map (Term.mapMarks tag mark) := by
  induction items with
  | nil => rfl
  | cons item items ih => rw [Term.mapMarksEach, ih, List.map_cons]

theorem Call.mapMarksArguments_eq (arguments : List (Argument Term)) :
    Call.mapMarksArguments tag mark arguments =
      arguments.map (Argument.map (Term.mapMarks tag mark)) := by
  induction arguments with
  | nil => rfl
  | cons a arguments ih =>
    obtain ⟨label, value⟩ := a
    rw [Call.mapMarksArguments, ih]
    rfl

@[simp] theorem Term.mapMarks_list (items : List Term) :
    Term.mapMarks tag mark (.list items) = .list (items.map (Term.mapMarks tag mark)) := by
  rw [Term.mapMarks, Term.mapMarksEach_eq]

@[simp] theorem Term.mapMarks_call (node : Node) :
    Term.mapMarks tag mark (.call node) = .call (node.mapMarks tag mark) := by
  rw [Term.mapMarks]

@[simp] theorem Call.annotations_mapMarks (node : Node) :
    (node.mapMarks tag mark).annotations = mark node.annotations := by
  obtain ⟨name, annotations, selector, arguments⟩ := node
  rfl

@[simp] theorem Call.selector_mapMarks (node : Node) :
    (node.mapMarks tag mark).selector = node.selector := by
  obtain ⟨name, annotations, selector, arguments⟩ := node
  rfl

@[simp] theorem Call.arguments_mapMarks (node : Node) :
    (node.mapMarks tag mark).arguments =
      node.arguments.map (Argument.map (Term.mapMarks tag mark)) := by
  obtain ⟨name, annotations, selector, arguments⟩ := node
  exact Call.mapMarksArguments_eq tag mark arguments

/-- The name of a case is a literal, which has no marks. -/
theorem trailingCaseName?_mapMarks (selector : Option String) (arguments : List (Argument Term)) :
    trailingCaseName? selector (arguments.map (Argument.map (Term.mapMarks tag mark))) =
      trailingCaseName? selector arguments := by
  match arguments with
  | [] => rfl
  | [⟨label, value⟩] => cases value <;> cases label <;> rfl
  | first :: second :: rest => simp [trailingCaseName?]

end Terms

/-! ## Texts -/

theorem Term.itemTexts_eq (items : List Term) : Term.itemTexts items = items.map Term.text := by
  induction items with
  | nil => rfl
  | cons item items ih => rw [Term.itemTexts, ih, List.map_cons]

theorem Node.argumentTexts_eq (arguments : List (Argument Term)) :
    Node.argumentTexts arguments = arguments.map fun a => labeledText a.label a.value.text := by
  induction arguments with
  | nil => rfl
  | cons a arguments ih =>
    obtain ⟨label, value⟩ := a
    rw [Node.argumentTexts, ih, List.map_cons]

/-- The text of a term says its tags, but not its annotations. -/
theorem Term.text_mapMarks (mark : Annotations → Annotations) (term : Term) :
    (term.mapMarks id mark).text = term.text := by
  induction term with
  | literal l => rfl
  | reference name annotations => rfl
  | list items ih =>
    have hitems : (items.map (Term.mapMarks id mark)).map Term.text = items.map Term.text := by
      rw [List.map_map]
      exact List.map_congr_left ih
    rw [Term.mapMarks_list, Term.text, Term.text, Term.itemTexts_eq, Term.itemTexts_eq, hitems]
  | call node ih =>
    obtain ⟨name, annotations, selector, arguments⟩ := node
    have harguments :
        (arguments.map (Argument.map (Term.mapMarks id mark))).map
            (fun a => labeledText a.label a.value.text) =
          arguments.map fun a => labeledText a.label a.value.text := by
      rw [List.map_map]
      refine List.map_congr_left fun a ha => ?_
      have hvalue : (a.value.mapMarks id mark).text = a.value.text := ih a ha
      show labeledText a.label (a.value.mapMarks id mark).text = labeledText a.label a.value.text
      rw [hvalue]
    rw [Term.mapMarks, Call.mapMarks, Call.mapMarksArguments_eq, Term.text, Term.text, Node.text,
      Node.text, Node.argumentTexts_eq, Node.argumentTexts_eq, harguments]
    rfl

/-! ## Decoding -/

/-- Relations between errors and between failures that do not tell a term from the term with other
marks, and that nodes hand on from their arguments. -/
structure Oblivious (tag : String → String) (mark : Annotations → Annotations)
    (E : DecodeError → DecodeError → Prop) (F : DecodeFailures → DecodeFailures → Prop) : Prop where
  refl : ∀ e, E e e
  found : ∀ label rule term,
    E (incorrect label rule term) (incorrect label rule (term.mapMarks tag mark))
  nested : ∀ label failures failures', F failures failures' →
    E (.nested label failures) (.nested label failures')
  node : ∀ typeName entries entries' annotations, EntriesRelated E entries entries' →
    F ⟨typeName, entries, annotations⟩ ⟨typeName, entries', mark annotations⟩

section Decoding

variable {tag : String → String} {mark : Annotations → Annotations}
  {E : DecodeError → DecodeError → Prop} {F : DecodeFailures → DecodeFailures → Prop} {d : Decoder}

/-- A term that is decoded like the term with other marks, whatever it is decoded as. -/
def DecodesUnmarked (tag : String → String) (mark : Annotations → Annotations)
    (E : DecodeError → DecodeError → Prop) (d : Decoder) (term : Term) : Prop :=
  ∀ rule label default, Related E Eq (d.decodeTerm term rule label default)
    (d.decodeTerm (term.mapMarks tag mark) rule label default)

theorem EntriesRelated.append_refl (hE : ∀ e, E e e) {entries entries' : List (Attempt DecodeError)}
    (h : EntriesRelated E entries entries') (more : List (Attempt DecodeError)) :
    EntriesRelated E (entries ++ more) (entries' ++ more) :=
  List.rel_append h (List.forall₂_same.mpr fun entry _ => ⟨rfl, hE entry.error⟩)

theorem attempt_mapMarks (h : Oblivious tag mark E F) {node : Node}
    (hargs : ∀ a ∈ node.arguments, DecodesUnmarked tag mark E d a.value) (typeName : String)
    (shape : Shape) :
    Related E Eq (d.attempt typeName node shape)
      (d.attempt typeName (node.mapMarks tag mark) shape) := by
  rw [d.attempt_eq, d.attempt_eq, Call.arguments_mapMarks, bindArguments_map]
  cases hbindings : bindArguments shape.params node.arguments with
  | error e => exact .error (h.refl e)
  | ok bindings =>
    have hchildren : Related E (List.Forall₂ Eq)
        (decodeParams d.registry shape.params (bindings.map (Binding.map d.decodeTerm)))
        (decodeParams d.registry shape.params
          ((bindings.map (Binding.map (Term.mapMarks tag mark))).map
            (Binding.map d.decodeTerm))) := by
      apply decodeParams_related
      rw [List.map_map, List.forall₂_map_left_iff, List.forall₂_map_right_iff, List.forall₂_same]
      intro binding hbinding param _
      cases binding with
      | given term =>
        obtain ⟨a, ha, rfl⟩ := mem_of_bindArguments hbindings hbinding
        exact hargs a ha _ _ _
      | default literal => exact .refl h.refl (fun _ => rfl) _
    refine hchildren.map fun children children' heq => ?_
    rw [List.forall₂_eq_eq_eq] at heq
    rw [heq]

/-- A node whose arguments are decoded like those with other marks is decoded like the node with
other marks. -/
theorem decode_mapMarks_of_arguments (h : Oblivious tag mark E F) {node : Node}
    (hargs : ∀ a ∈ node.arguments, DecodesUnmarked tag mark E d a.value) (catalog : Catalog) :
    Related F Eq (d.decode node catalog) (d.decode (node.mapMarks tag mark) catalog) := by
  refine Decoder.decode_related (E := E) ?_ ?_ ?_ ?_ ?_
  · exact (Call.selector_mapMarks tag mark node).symm
  · rw [Call.selector_mapMarks, Call.arguments_mapMarks, trailingCaseName?_mapMarks]
  · intro shape _ _
    exact attempt_mapMarks h hargs catalog.typeName shape
  · intro case _ _
    rfl
  · intro entries entries' cases hentries
    rw [Call.annotations_mapMarks]
    exact h.node _ _ _ _ (hentries.append_refl h.refl cases)

/-- By induction on the term: marks stand at nodes and references, and neither reads them. -/
theorem decodeTerm_mapMarks (h : Oblivious tag mark E F) (term : Term) :
    DecodesUnmarked tag mark E d term := by
  induction term with
  | literal literal => exact fun _ _ _ => .refl h.refl (fun _ => rfl) _
  | reference name annotations => exact fun _ _ _ => .refl h.refl (fun _ => rfl) _
  | list items ih =>
    intro rule label default
    have hfound := h.found label rule.core (.list items)
    rw [Term.mapMarks_list] at hfound ⊢
    refine decodeList_related hfound (fun item rs rs' _ hrs => ?_) fun item _ => ?_
    · rw [List.forall₂_eq_eq_eq] at hrs
      rw [hrs]
    · apply decodeItems_related
      rw [List.forall₂_map_right_iff, List.forall₂_same]
      exact fun t ht => ih t ht _ _ _
  | call node ih =>
    intro rule label default
    have hfound := h.found label rule.core (.call node)
    rw [Term.mapMarks_call] at hfound ⊢
    apply decodeNested_related hfound (fun _ => h.refl _) (h.nested label)
    intro name catalog _
    exact decode_mapMarks_of_arguments h ih catalog

/-- **A node and the node with other marks decode alike.** -/
theorem decode_mapMarks (h : Oblivious tag mark E F) (d : Decoder) (node : Node)
    (catalog : Catalog) :
    Related F Eq (d.decode node catalog) (d.decode (node.mapMarks tag mark) catalog) :=
  decode_mapMarks_of_arguments h (fun a _ => decodeTerm_mapMarks h a.value) catalog

end Decoding

/-! ## Annotations and tags -/

theorem eraseEntries_eq_of_entriesRelated {entries entries' : List (Attempt DecodeError)}
    (h : EntriesRelated (fun e e' => e.eraseAnnotations = e'.eraseAnnotations) entries entries') :
    DecodeError.eraseEntries entries = DecodeError.eraseEntries entries' := by
  induction h with
  | nil => rfl
  | cons hentry _ ih =>
    rename_i entry entry' entries entries' _
    obtain ⟨shape, error⟩ := entry
    obtain ⟨shape', error'⟩ := entry'
    obtain ⟨hshape, herror⟩ := hentry
    simp only at hshape herror
    rw [DecodeError.eraseEntries, DecodeError.eraseEntries, hshape, herror, ih]

/-- What failures say apart from places is not changed by annotations. -/
theorem oblivious_annotations (mark : Annotations → Annotations) :
    Oblivious id mark (fun e e' => e.eraseAnnotations = e'.eraseAnnotations)
      (fun f f' => f.eraseAnnotations = f'.eraseAnnotations) where
  refl _ := rfl
  found label rule term := by rw [incorrect, incorrect, Term.text_mapMarks]
  nested label failures failures' hfailures := by
    have herased : DecodeError.eraseFailures failures = DecodeError.eraseFailures failures' :=
      hfailures
    rw [DecodeError.eraseAnnotations, DecodeError.eraseAnnotations, herased]
  node typeName entries entries' annotations hentries := by
    have herased := eraseEntries_eq_of_entriesRelated hentries
    simp only [Failures.eraseAnnotations, DecodeError.eraseFailures, herased]

/-- Whether there are failures is not changed by any mark. -/
theorem oblivious_marks (tag : String → String) (mark : Annotations → Annotations) :
    Oblivious tag mark (fun _ _ => True) (fun _ _ => True) where
  refl _ := trivial
  found _ _ _ := trivial
  nested _ _ _ _ := trivial
  node _ _ _ _ _ := trivial

/-- Two nodes that come to the same node once their marks are changed. -/
theorem related_of_mapMarks_eq {tag : String → String} {mark : Annotations → Annotations}
    {E : DecodeError → DecodeError → Prop} {F : DecodeFailures → DecodeFailures → Prop}
    (h : Oblivious tag mark E F) (hsymm : ∀ f f', F f f' → F f' f)
    (htrans : ∀ f f' f'', F f f' → F f' f'' → F f f'') {node node' : Node}
    (heq : node.mapMarks tag mark = node'.mapMarks tag mark) (d : Decoder) (catalog : Catalog) :
    Related F Eq (d.decode node catalog) (d.decode node' catalog) := by
  have hfirst := decode_mapMarks h d node catalog
  have hsecond := decode_mapMarks h d node' catalog
  rw [heq] at hfirst
  revert hfirst hsecond
  generalize d.decode (node'.mapMarks tag mark) catalog = erased
  generalize d.decode node catalog = x
  generalize d.decode node' catalog = y
  rintro (hf | rfl) hsecond
  · cases hsecond with
    | error hf' => exact .error (htrans _ _ _ hf (hsymm _ _ hf'))
  · cases hsecond with
    | ok heq' => exact .ok heq'.symm

/-- **Annotations and tags never influence decoding.**  Nodes that differ in annotations only are
decoded to the same tree, or fail with failures that differ in annotations only.  Nodes that differ
in annotations and tags only are decoded to the same tree, or both fail. -/
theorem decode_ignores_marks :
    (∀ (d : Decoder) (catalog : Catalog) (node node' : Node),
      node.eraseAnnotations = node'.eraseAnnotations →
      (∃ r, d.decode node catalog = .ok r ∧ d.decode node' catalog = .ok r) ∨
      ∃ failures failures', d.decode node catalog = .error failures ∧
        d.decode node' catalog = .error failures' ∧
        failures.eraseAnnotations = failures'.eraseAnnotations) ∧
    ∀ (d : Decoder) (catalog : Catalog) (node node' : Node),
      node.eraseMarks = node'.eraseMarks →
      ∀ r, d.decode node catalog = .ok r ↔ d.decode node' catalog = .ok r := by
  refine ⟨?_, ?_⟩
  · intro d catalog node node' heq
    have hrelated := related_of_mapMarks_eq (oblivious_annotations _) (fun _ _ => Eq.symm)
      (fun _ _ _ => Eq.trans) heq d catalog
    revert hrelated
    generalize d.decode node catalog = x
    generalize d.decode node' catalog = y
    rintro (hf | rfl)
    · exact .inr ⟨_, _, rfl, rfl, hf⟩
    · exact .inl ⟨_, rfl, rfl⟩
  · intro d catalog node node' heq r
    have hrelated := related_of_mapMarks_eq (oblivious_marks _ _) (fun _ _ => id)
      (fun _ _ _ _ => id) heq d catalog
    revert hrelated
    generalize d.decode node catalog = x
    generalize d.decode node' catalog = y
    rintro (_ | rfl)
    · exact ⟨nofun, nofun⟩
    · exact Iff.rfl

/-- The same paint written in two files, and once with the name of its type for a tag.  A color that
does not exist fails wherever it is written. -/
theorem decode_ignores_marks_solid :
    let d := (Registry.standard .ios).decoder
    let places (file : String) : Annotations := ⟨some file, some 3, none, none, none⟩
    let paint (tag file color : String) : Node :=
      ⟨tag, places file, some "solid",
        [⟨none, .call ⟨tag, places file, some color, []⟩⟩]⟩
    let red := paint memberTag "base.json" "red"
    let red' := paint memberTag "theme.json" "red"
    let tagged := paint "Paint" "theme.json" "red"
    let mauve := paint memberTag "base.json" "mauve"
    let mauve' := paint memberTag "theme.json" "mauve"
    (red.eraseAnnotations = red'.eraseAnnotations ∧
      ∃ r, d.decode red Vocabulary.paint = .ok r ∧ d.decode red' Vocabulary.paint = .ok r) ∧
    (mauve.eraseAnnotations = mauve'.eraseAnnotations ∧
      ∃ failures failures', d.decode mauve Vocabulary.paint = .error failures ∧
        d.decode mauve' Vocabulary.paint = .error failures' ∧
        failures.eraseAnnotations = failures'.eraseAnnotations) ∧
    red.eraseMarks = tagged.eraseMarks ∧
      ∃ r, d.decode red Vocabulary.paint = .ok r ∧ d.decode tagged Vocabulary.paint = .ok r := by
  intro d places paint red red' tagged mauve mauve'
  have hred : (d.decode red Vocabulary.paint).isOk = true := by decide +kernel
  have hmauve : (d.decode mauve Vocabulary.paint).isOk = false := by decide +kernel
  obtain ⟨r, hr⟩ := exists_ok_of_isOk hred
  refine ⟨⟨rfl, ?_⟩, ⟨rfl, ?_⟩, rfl, r, hr, ?_⟩
  · rcases decode_ignores_marks.1 d Vocabulary.paint red red' rfl with hok | ⟨_, _, herror, -⟩
    · exact hok
    · rw [herror] at hr
      cases hr
  · rcases decode_ignores_marks.1 d Vocabulary.paint mauve mauve' rfl with ⟨r', hr', -⟩ | herror
    · rw [hr'] at hmauve
      cases hmauve
    · exact herror
  · exact (decode_ignores_marks.2 d Vocabulary.paint red tagged rfl r).mp hr

end DeferredStyle
