import DeferredStyle.Decoder.Basic

/-!
# Recursion over terms and trees

Terms and decoded trees hold lists of themselves, so the library defines functions on them by mutual
recursion with a function on lists.

* `Term.induction`, `Resolvable.induction` — one motive each; the hypothesis of a list is about its
  members.
* `Decoder.decodeTerm_literal` and the like — how each term is decoded.
* `Decoder.readings_eq`, `Resolvable.resolveEach_eq`, `Resolvable.collectNamesEach_eq` — what the
  functions on lists do, by the operations on lists.
-/

set_option autoImplicit false

namespace DeferredStyle

/-- Induction over terms: a call may assume the motive for what its arguments carry, a list for its
items. -/
@[elab_as_elim, induction_eliminator]
theorem Term.induction {motive : Term → Prop} (literal : ∀ l, motive (.literal l))
    (call : ∀ node : Node, (∀ a ∈ node.arguments, motive a.value) → motive (.call node))
    (reference : ∀ name annotations, motive (.reference name annotations))
    (list : ∀ items, (∀ item ∈ items, motive item) → motive (.list items)) (t : Term) : motive t :=
  @Term.rec motive (fun node => ∀ a ∈ node.arguments, motive a.value)
    (fun items => ∀ item ∈ items, motive item) (fun arguments => ∀ a ∈ arguments, motive a.value)
    (fun a => motive a.value) literal call reference list (fun _ _ _ _ ih => ih) (by simp)
    (fun _ _ hhead htail => List.forall_mem_cons.mpr ⟨hhead, htail⟩) (by simp)
    (fun _ _ hhead htail => List.forall_mem_cons.mpr ⟨hhead, htail⟩) (fun _ _ ih => ih) t

/-- Induction over decoded trees: a shape may assume the motive for its children. -/
@[elab_as_elim, induction_eliminator]
theorem Resolvable.induction {motive : Resolvable → Prop}
    (constant : ∀ value, motive (.constant value)) (bound : ∀ binding, motive (.bound binding))
    (deferred : ∀ shape builder fallback gate children, (∀ child ∈ children, motive child) →
      motive (.deferred ⟨shape, builder, fallback, gate, children⟩)) (r : Resolvable) : motive r :=
  @Resolvable.rec motive (fun d => ∀ child ∈ d.children, motive child)
    (fun children => ∀ child ∈ children, motive child) constant bound
    (fun d ih => deferred d.shape d.builder d.fallback d.gate d.children ih)
    (fun _ _ _ _ _ ih => ih) (by simp)
    (fun _ _ hhead htail => List.forall_mem_cons.mpr ⟨hhead, htail⟩) r

/-! ## Terms -/

namespace Decoder

variable (d : Decoder) (rule : Rule) (label : String) (default : Option Literal)

@[simp] theorem decodeTerm_literal (literal : Literal) :
    d.decodeTerm (.literal literal) rule label default =
      (decodeLiteral d.registry rule label literal).map .constant := rfl

@[simp] theorem decodeTerm_reference (name : String) (annotations : Annotations) :
    d.decodeTerm (.reference name annotations) rule label default =
      bindAttribute d.registry rule label default name := rfl

@[simp] theorem decodeTerm_call (node : Node) :
    d.decodeTerm (.call node) rule label default =
      decodeNested d.registry rule.core label (.call node) (d.decode node) := rfl

@[simp] theorem decodeTerm_list (items : List Term) :
    d.decodeTerm (.list items) rule label default =
      decodeList d.folds rule.core label (.list items) fun item =>
        d.decodeItems items item label := rfl

@[simp] theorem decodeItems_cons (item : Term) (items : List Term) :
    d.decodeItems (item :: items) rule label =
      match d.decodeTerm item rule label none with
      | .error e => .error e
      | .ok r => (d.decodeItems items rule label).map (r :: ·) := rfl

end Decoder

/-! ## Functions on lists -/

theorem Decoder.readings_eq (d : Decoder) (arguments : List (Argument Term)) :
    d.readings arguments = arguments.map (Argument.map d.decodeTerm) := by
  induction arguments with
  | nil => rfl
  | cons a arguments ih =>
    obtain ⟨label, value⟩ := a
    rw [Decoder.readings, ih]
    rfl

namespace Resolvable

theorem resolveEach_eq (context : Context) (rs : List Resolvable) :
    resolveEach context rs = rs.map (resolve context) := by
  induction rs with
  | nil => rfl
  | cons r rs ih => rw [resolveEach, ih]; rfl

theorem resolve_deferred (context : Context) (shape : String) (builder : Builder)
    (fallback : Option Builder) (gate : Option RuntimeGate) (children : List Resolvable) :
    (deferred ⟨shape, builder, fallback, gate, children⟩).resolve context =
      match selectBuilder shape builder fallback gate context.environment with
      | .error e => .error e
      | .ok builder =>
        builder.build ⟨shape, children.map (resolve context), some context.environment⟩ := by
  rw [← resolveEach_eq]
  rfl

theorem collectNamesEach_eq (names : List String) (rs : List Resolvable) :
    collectNamesEach names rs = rs.foldl collectNames names := by
  induction rs generalizing names with
  | nil => rfl
  | cons r rs ih => rw [collectNamesEach, ih]; rfl

theorem constants?_map (values : List Value) :
    constants? (values.map .constant) = some values := by
  induction values with
  | nil => rfl
  | cons value values ih => simp [constants?, constant?, ih]

theorem eq_map_of_constants? {rs : List Resolvable} {values : List Value}
    (h : constants? rs = some values) : rs = values.map .constant := by
  induction rs generalizing values with
  | nil =>
    simp only [constants?, Option.some.injEq] at h
    subst h
    rfl
  | cons r rs ih =>
    simp only [constants?] at h
    split at h
    · rename_i value vs hr hrs
      cases h
      cases r with
      | constant v =>
        cases hr
        rw [ih hrs]
        rfl
      | bound binding => cases hr
      | deferred => cases hr
    · cases h

theorem constants?_eq_some_iff {rs : List Resolvable} {values : List Value} :
    constants? rs = some values ↔ rs = values.map .constant :=
  ⟨eq_map_of_constants?, fun h => h ▸ constants?_map values⟩

end Resolvable

end DeferredStyle
