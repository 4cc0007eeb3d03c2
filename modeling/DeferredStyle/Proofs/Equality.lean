import DeferredStyle.Proofs.Origins
import Mathlib.Data.List.Nodup

/-!
# Equal trees

Two decoded trees compare equal by the names of their parts: the labels of shapes and the names of
decoders, but neither builders nor decoders themselves.  In the standard vocabulary this is enough:
no two shapes that may stay deferred have the same label, and no two decoders the same name.

* `Resolvable.SameBy` — the comparison, for any comparison of values.
* `Resolvable.beq_iff_sameBy` — equality of decoded trees is this comparison.
* `Vocabulary.entry_of_label`, `Vocabulary.leaf_of_name` — what names determine.
* `Vocabulary.Tree.eq_of_sameBy`, `resolve_of_same` — decoded trees that compare equal are the same,
  and so are their results.
-/

set_option autoImplicit false

namespace DeferredStyle

/-! ## The comparison -/

namespace Resolvable

/-- The trees are the same up to builders and decoders: `S` compares values, references compare by
name, name of the decoder and default, deferred trees by label, gate, presence of a fallback and
children. -/
inductive SameBy (S : Value → Value → Prop) : Resolvable → Resolvable → Prop
  | constant {value value' : Value} (h : S value value') :
      SameBy S (.constant value) (.constant value')
  | bound {binding binding' : AttributeBinding} (hname : binding.name = binding'.name)
      (hdecoder : binding.decoder.name = binding'.decoder.name)
      (hdefault : Option.Rel S binding.default binding'.default) :
      SameBy S (.bound binding) (.bound binding')
  | deferred {d d' : Deferred Resolvable} (hshape : d.shape = d'.shape) (hgate : d.gate = d'.gate)
      (hfallback : d.fallback.isSome = d'.fallback.isSome)
      (hlength : d.children.length = d'.children.length)
      (hchildren : ∀ child child', (child, child') ∈ d.children.zip d'.children →
        SameBy S child child') :
      SameBy S (.deferred d) (.deferred d')

theorem beqEach_iff {rs rs' : List Resolvable} :
    beqEach rs rs' = true ↔
      rs.length = rs'.length ∧ ∀ r r', (r, r') ∈ rs.zip rs' → beq r r' = true := by
  induction rs generalizing rs' with
  | nil => cases rs' <;> simp [beqEach]
  | cons r rs ih =>
    cases rs' with
    | nil => simp [beqEach]
    | cons r' rs' =>
      simp only [beqEach, Bool.and_eq_true, ih, List.length_cons, Nat.add_right_cancel_iff,
        List.zip_cons_cons, List.mem_cons, Prod.mk.injEq]
      grind

theorem beq_default_iff {default default' : Option Value} :
    (default == default') = true ↔
      Option.Rel (fun value value' => (value == value') = true) default default' := by
  cases default <;> cases default' <;> simp

/-- **Equality of decoded trees is the comparison by the equality of values.** -/
theorem beq_iff_sameBy {r r' : Resolvable} :
    (r == r') = true ↔ SameBy (fun value value' => (value == value') = true) r r' := by
  change beq r r' = true ↔ _
  induction r generalizing r' with
  | constant value =>
    cases r' with
    | constant value' =>
      refine ⟨fun h => .constant (by simpa [beq] using h), fun h => ?_⟩
      cases h with
      | constant h => simpa [beq] using h
    | bound | deferred => exact ⟨fun h => by simp [beq] at h, nofun⟩
  | bound binding =>
    cases r' with
    | bound binding' =>
      simp only [beq, Bool.and_eq_true, beq_iff_eq, beq_default_iff]
      refine ⟨fun ⟨⟨hname, hdecoder⟩, hdefault⟩ => .bound hname hdecoder hdefault, fun h => ?_⟩
      cases h with
      | bound hname hdecoder hdefault => exact ⟨⟨hname, hdecoder⟩, hdefault⟩
    | constant | deferred => exact ⟨fun h => by simp [beq] at h, nofun⟩
  | deferred shape builder fallback gate children ih =>
    cases r' with
    | deferred d' =>
      obtain ⟨shape', builder', fallback', gate', children'⟩ := d'
      have hchildren : (∀ r r', (r, r') ∈ children.zip children' → beq r r' = true) ↔
          ∀ r r', (r, r') ∈ children.zip children' →
            SameBy (fun value value' => (value == value') = true) r r' :=
        forall_congr' fun r => forall_congr' fun r' => forall_congr' fun hmem =>
          ih r (List.of_mem_zip hmem).1
      simp only [beq, Bool.and_eq_true, beq_iff_eq, beqEach_iff, hchildren]
      refine ⟨fun ⟨⟨⟨hshape, hgate⟩, hfallback⟩, hlength, hsame⟩ =>
        .deferred hshape hgate hfallback hlength hsame, fun h => ?_⟩
      cases h with
      | deferred hshape hgate hfallback hlength hsame =>
        exact ⟨⟨⟨hshape, hgate⟩, hfallback⟩, hlength, hsame⟩
    | constant | bound => exact ⟨fun h => by simp [beq] at h, nofun⟩

end Resolvable

/-! ## What names determine -/

namespace Vocabulary

theorem nodup_labels :
    ((shapes.filter (·.2.stays)).map fun entry => entry.2.label entry.1).Nodup := by
  decide +kernel

theorem nodup_names : (leaves.map Leaf.name).Nodup := by
  decide +kernel

theorem head_label : ∀ entry ∈ shapes.filter (·.2.stays),
    (entry.2.label entry.1).toList.head? ≠ some '[' := by
  decide +kernel

theorem head_text (item : Rule) : (Rule.list item).text.toList.head? = some '[' := by
  simp [Rule.text]

/-- Of the shapes that may stay deferred no two have the same label. -/
theorem entry_of_label {typeName typeName' : String} {shape shape' : Shape}
    (h : (typeName, shape) ∈ shapes) (hstays : shape.stays = true)
    (h' : (typeName', shape') ∈ shapes) (hstays' : shape'.stays = true)
    (hlabel : shape.label typeName = shape'.label typeName') : shape = shape' := by
  have hmem : (typeName, shape) ∈ shapes.filter (·.2.stays) := List.mem_filter.mpr ⟨h, hstays⟩
  have hmem' : (typeName', shape') ∈ shapes.filter (·.2.stays) :=
    List.mem_filter.mpr ⟨h', hstays'⟩
  exact congrArg Prod.snd (List.inj_on_of_nodup_map nodup_labels hmem hmem' hlabel)

/-- Nor has one the label of a list. -/
theorem label_ne_text {typeName : String} {shape : Shape} (h : (typeName, shape) ∈ shapes)
    (hstays : shape.stays = true) (item : Rule) : shape.label typeName ≠ (Rule.list item).text := by
  intro hlabel
  have hhead := head_label _ (List.mem_filter.mpr ⟨h, hstays⟩)
  rw [hlabel] at hhead
  exact hhead (head_text item)

/-- No two leaf decoders have the same name. -/
theorem leaf_of_name {leaf leaf' : Leaf} (h : leaf ∈ leaves) (h' : leaf' ∈ leaves)
    (hname : leaf.name = leaf'.name) : leaf = leaf' :=
  List.inj_on_of_nodup_map nodup_names h h' hname

/-- In folded trees the label determines the builders. -/
theorem builders_of_label {d d' : Deferred Resolvable} (h : Tree true (.deferred d))
    (h' : Tree true (.deferred d')) (hlabel : d.shape = d'.shape) :
    d.builder = d'.builder ∧ d.fallback = d'.fallback := by
  rcases h.list_or_shape with ⟨item, children, rfl⟩ | ⟨typeName, shape, children, hmem, hstays, rfl⟩
  · rcases h'.list_or_shape with ⟨item', children', rfl⟩ |
      ⟨typeName', shape', children', hmem', hstays', rfl⟩
    · exact ⟨rfl, rfl⟩
    · exact absurd hlabel.symm (label_ne_text hmem' (hstays' rfl) item)
  · rcases h'.list_or_shape with ⟨item', children', rfl⟩ |
      ⟨typeName', shape', children', hmem', hstays', rfl⟩
    · exact absurd hlabel (label_ne_text hmem (hstays rfl) item')
    · cases entry_of_label hmem (hstays rfl) hmem' (hstays' rfl) hlabel
      exact ⟨rfl, rfl⟩

theorem eq_of_rel_eq {default default' : Option Value} (h : Option.Rel Eq default default') :
    default = default' := by
  cases h with
  | some h => rw [h]
  | none => rfl

theorem binding_eq {binding binding' : AttributeBinding} (h : Tree true (.bound binding))
    (h' : Tree true (.bound binding')) (hname : binding.name = binding'.name)
    (hdecoder : binding.decoder.name = binding'.decoder.name)
    (hdefault : binding.default = binding'.default) : binding = binding' := by
  cases h with
  | bound hleaf =>
    cases h' with
    | bound hleaf' =>
      obtain ⟨name, decoder, default⟩ := binding
      cases hname
      cases leaf_of_name hleaf hleaf' hdecoder
      cases hdefault
      rfl

/-- **Trees of the vocabulary that compare equal are the same, builders and decoders included.** -/
theorem Tree.eq_of_sameBy {r r' : Resolvable} (hsame : r.SameBy Eq r') (h : Tree true r)
    (h' : Tree true r') : r = r' := by
  induction hsame with
  | constant hvalue => rw [hvalue]
  | bound hname hdecoder hdefault =>
    rw [binding_eq h h' hname hdecoder (eq_of_rel_eq hdefault)]
  | @deferred d d' hshape hgate _ hlength _ ih =>
    obtain ⟨hbuilder, hfallback⟩ := builders_of_label h h' hshape
    have hchildren : d.children = d'.children := by
      refine List.forall₂_eq_eq_eq ▸ List.forall₂_iff_zip.mpr
        ⟨hlength, fun {child child'} hmem => ?_⟩
      obtain ⟨hchild, hchild'⟩ := List.of_mem_zip hmem
      exact ih child child' hmem (h.of_child child hchild) (h'.of_child child' hchild')
    obtain ⟨label, builder, fallback, gate, children⟩ := d
    cases hshape
    cases hgate
    cases hbuilder
    cases hfallback
    cases hchildren
    rfl

end Vocabulary

/-- **Trees that compare equal have the same results.**  The comparison of decoded trees looks at
neither builders nor decoders.  Still, of any two trees that standard registries decode, on whatever
platforms and of whatever nodes, types or modifiers, those that compare equal resolve alike in every
context; values count as equal here if they are identical. -/
theorem resolve_of_same :
    (∀ r r' : Resolvable, (r == r') = true ↔
      r.SameBy (fun value value' => (value == value') = true) r') ∧
    ∀ (platform platform' : Platform) (node node' : Node) (r r' : Resolvable),
      ((∃ typeName, (Registry.standard platform).decoder.decodeType node typeName = .ok r) ∨
        (Registry.standard platform).decoder.decodeModifier node = .ok r) →
      ((∃ typeName, (Registry.standard platform').decoder.decodeType node' typeName = .ok r') ∨
        (Registry.standard platform').decoder.decodeModifier node' = .ok r') →
      r.SameBy Eq r' → ∀ context : Context, r.resolve context = r'.resolve context := by
  refine ⟨fun r r' => Resolvable.beq_iff_sameBy, ?_⟩
  intro platform platform' node node' r r' hdecode hdecode' hsame context
  have htree : Vocabulary.Tree true r := Vocabulary.tree_of_decodeNode hdecode
  have htree' : Vocabulary.Tree true r' := Vocabulary.tree_of_decodeNode hdecode'
  rw [htree.eq_of_sameBy hsame htree']

/-- A modifier whose paint is picked by a selector on one platform and found without one on
another, and an element whose attribute is no color. -/
theorem resolve_of_same_foregroundStyle :
    let tint : List (Argument Term) := [⟨none, .reference "tint" .empty⟩]
    let node : Node := ⟨"foregroundStyle", .empty, none,
      [⟨none, .call (Node.member (some "solid") tint)⟩]⟩
    let node' : Node := ⟨"foregroundStyle", .empty, some "foregroundStyle",
      [⟨none, .call (Node.member none tint)⟩]⟩
    let solid : Resolvable := .deferred ⟨".solid(_:)", Vocabulary.solid, none, none,
      [.bound ⟨"tint", Vocabulary.colorLeaf, none⟩]⟩
    let r : Resolvable := .deferred ⟨"foregroundStyle(_:)",
      Vocabulary.ofValue Paint .foregroundStyle, none, none, [solid]⟩
    let context : Context := .ofElement (Element.empty.set "tint" (.string "dim")) .standard
    (Registry.standard .ios).decoder.decodeModifier node = .ok r ∧
      (Registry.standard .macos).decoder.decodeModifier node' = .ok r ∧
      r.SameBy Eq r ∧
      r.resolve context = .error (.missingOrInvalidAttribute "tint"
        "`dim` is not a color name or hex code") := by
  intro tint node node' solid r context
  have hdecode : (Registry.standard .ios).decoder.decodeModifier node = .ok r := rfl
  have hdecode' : (Registry.standard .macos).decoder.decodeModifier node' = .ok r := rfl
  have hsolid : solid.SameBy Eq solid := by
    refine .deferred rfl rfl rfl rfl fun child child' hmem => ?_
    obtain ⟨rfl, rfl⟩ := Prod.mk.inj (List.mem_singleton.mp hmem)
    exact .bound rfl rfl .none
  have hsame : r.SameBy Eq r := by
    refine .deferred rfl rfl rfl rfl fun child child' hmem => ?_
    obtain ⟨rfl, rfl⟩ := Prod.mk.inj (List.mem_singleton.mp hmem)
    exact hsolid
  refine ⟨hdecode, hdecode', hsame, ?_⟩
  rw [resolve_of_same.2 .ios .macos node node' r r (.inr hdecode) (.inr hdecode') hsame context]
  rfl

end DeferredStyle
