import DeferredStyle.Stylesheet.Basic
import Mathlib.Logic.ExistsUnique

/-!
# Class lists

A class list is a text, and what it says is the list of its words: blanks hold words apart and mean
nothing else.  The modifiers of a class list are those of its words, one word after the other.

* `Text.Spells` — a text is made of words and blanks; `Text.words_eq_iff_spells` — its words are the
  only ones it can be made of.
* `Text.words_append_blanks` — blanks between two texts keep their words apart.
* `Stylesheet.kept` — the modifiers of a class that have a value.
* `modifiers_of_class_list` — the modifiers of a class list, word by word.
-/

set_option autoImplicit false

namespace DeferredStyle

/-! ## Words -/

namespace Text

/-- Nothing but blanks. -/
def AllBlank (cs : List Char) : Prop := ∀ c ∈ cs, isBlank c = true

instance (cs : List Char) : Decidable (AllBlank cs) :=
  List.decidableBAll (fun c => isBlank c = true) cs

/-- At least one character, and no blank. -/
structure IsWord (cs : List Char) : Prop where
  ne_nil : cs ≠ []
  solid : ∀ c ∈ cs, isBlank c = false

/-- The end of a text, or a blank before more of it. -/
def StartsBlank (cs : List Char) : Prop := ∀ c ∈ cs.head?, isBlank c = true

/-- A text is made of words, in order, with blanks between any two of them, and blanks may stand
before and behind. -/
inductive Spells : List String → List Char → Prop
  | blank {cs : List Char} (h : AllBlank cs) : Spells [] cs
  | word {lead rest : List Char} {word : String} {words : List String} (hlead : AllBlank lead)
      (hword : IsWord word.toList) (hgap : StartsBlank rest) (hrest : Spells words rest) :
      Spells (word :: words) (lead ++ word.toList ++ rest)

/-- A blank in front of a text does not matter. -/
theorem wordLists_cons_of_blank {c : Char} (hc : isBlank c = true) (cs : List Char) :
    wordLists (c :: cs) = wordLists cs := by
  have hcut := wordLists_append_cons hc [] cs
  rw [List.nil_append] at hcut
  rw [hcut]
  rfl

/-- Blanks in front of a text do not matter. -/
theorem wordLists_append_of_allBlank {lead : List Char} (h : AllBlank lead) (cs : List Char) :
    wordLists (lead ++ cs) = wordLists cs := by
  induction lead with
  | nil => rfl
  | cons c lead ih =>
    obtain ⟨hc, hlead⟩ := List.forall_mem_cons.mp h
    rw [List.cons_append, wordLists_cons_of_blank hc, ih hlead]

/-- Blanks have no words. -/
theorem wordLists_of_allBlank {cs : List Char} (h : AllBlank cs) : wordLists cs = [] := by
  rw [← List.append_nil cs, wordLists_append_of_allBlank h]
  rfl

/-- What starts with a blank is held apart from what is before it. -/
theorem wordLists_append_of_startsBlank (cs : List Char) {rest : List Char}
    (h : StartsBlank rest) : wordLists (cs ++ rest) = wordLists cs ++ wordLists rest := by
  cases rest with
  | nil =>
    have hnil : wordLists [] = [] := rfl
    rw [hnil, List.append_nil, List.append_nil]
  | cons c rest =>
    have hc : isBlank c = true := h c rfl
    rw [wordLists_append_cons hc, wordLists_cons_of_blank hc]

theorem wordLists_of_isWord {cs : List Char} (h : IsWord cs) : wordLists cs = [cs] := by
  rw [wordLists, splitAt_of_none h.solid]
  simp [h.ne_nil]

theorem AllBlank.startsBlank {cs : List Char} (h : AllBlank cs) : StartsBlank cs :=
  fun c hc => h c (List.mem_of_mem_head? hc)

/-- The words that a text is made of are its words. -/
theorem Spells.wordLists_eq {words : List String} {cs : List Char} (h : Spells words cs) :
    wordLists cs = words.map String.toList := by
  induction h with
  | blank h => exact wordLists_of_allBlank h
  | word hlead hword hgap _ ih =>
    rw [List.append_assoc, wordLists_append_of_allBlank hlead,
      wordLists_append_of_startsBlank _ hgap, wordLists_of_isWord hword, ih]
    rfl

/-- A blank more in front. -/
theorem Spells.cons_blank {words : List String} {cs : List Char} {c : Char} (h : Spells words cs)
    (hc : isBlank c = true) : Spells words (c :: cs) := by
  cases h with
  | blank h => exact .blank (List.forall_mem_cons.mpr ⟨hc, h⟩)
  | word hlead hword hgap hrest =>
    exact .word (List.forall_mem_cons.mpr ⟨hc, hlead⟩) hword hgap hrest

/-- A character more in front that is no blank: it is a word of its own before a blank, and else
belongs to the first word. -/
theorem Spells.cons_solid {words : List String} {cs : List Char} {c : Char} (h : Spells words cs)
    (hc : isBlank c = false) : ∃ words', Spells words' (c :: cs) := by
  have hempty : AllBlank [] := nofun
  have halone : IsWord (String.ofList [c]).toList := by
    rw [String.toList_ofList]
    exact ⟨nofun, by simpa using hc⟩
  have hnew (hgap : StartsBlank cs) : ∃ words', Spells words' (c :: cs) := by
    have hspells := Spells.word hempty halone hgap h
    rw [String.toList_ofList] at hspells
    exact ⟨_, hspells⟩
  cases h with
  | blank hblank => exact hnew hblank.startsBlank
  | @word lead rest word words hlead hword hgap hrest =>
    cases lead with
    | cons d lead =>
      refine hnew fun e he => ?_
      cases he
      exact hlead d List.mem_cons_self
    | nil =>
      have hlonger : IsWord (String.ofList (c :: word.toList)).toList := by
        rw [String.toList_ofList]
        exact ⟨nofun, List.forall_mem_cons.mpr ⟨hc, hword.solid⟩⟩
      have hspells := Spells.word hempty hlonger hgap hrest
      rw [String.toList_ofList] at hspells
      exact ⟨_, hspells⟩

/-- Every text is made of words and blanks. -/
theorem exists_spells (cs : List Char) : ∃ words, Spells words cs := by
  induction cs with
  | nil => exact ⟨[], .blank nofun⟩
  | cons c cs ih =>
    obtain ⟨words, hwords⟩ := ih
    cases hc : isBlank c with
    | true => exact ⟨words, hwords.cons_blank hc⟩
    | false => exact hwords.cons_solid hc

theorem words_eq_of_spells {ws : List String} {text : String} (h : Spells ws text.toList) :
    words text = ws := by
  rw [words, h.wordLists_eq, List.map_map]
  simp [Function.comp_def, String.ofList_toList]

/-- **The words of a text are those it is made of.** -/
theorem words_eq_iff_spells {ws : List String} {text : String} :
    words text = ws ↔ Spells ws text.toList := by
  constructor
  · rintro rfl
    obtain ⟨ws, hws⟩ := exists_spells text.toList
    rwa [words_eq_of_spells hws]
  · exact words_eq_of_spells

/-- Blanks between two texts keep their words apart. -/
theorem words_append_blanks {a w b : String} (hne : w ≠ "") (hw : AllBlank w.toList) :
    words (a ++ w ++ b) = words a ++ words b := by
  have hstarts : StartsBlank (w.toList ++ b.toList) := fun c hc => by
    have hnil : w.toList ≠ [] := fun h => hne (String.toList_eq_nil_iff.mp h)
    obtain ⟨d, rest, hlist⟩ := List.exists_cons_of_ne_nil hnil
    rw [hlist] at hc hw
    cases hc
    exact hw _ List.mem_cons_self
  rw [words, String.toList_append, String.toList_append, List.append_assoc,
    wordLists_append_of_startsBlank _ hstarts, wordLists_append_of_allBlank hw, List.map_append]
  rfl

/-- Blanks around a text do not matter. -/
theorem words_between_blanks {lead a trail : String} (hlead : AllBlank lead.toList)
    (htrail : AllBlank trail.toList) : words (lead ++ a ++ trail) = words a := by
  rw [words, String.toList_append, String.toList_append, List.append_assoc,
    wordLists_append_of_allBlank hlead, wordLists_append_of_startsBlank _ htrail.startsBlank,
    wordLists_of_allBlank htrail, List.append_nil]
  rfl

end Text

/-! ## Modifiers -/

namespace Stylesheet

variable (sheet : Stylesheet) (context : Context)

/-- The modifiers of a class that have a value in a context, in order. -/
def kept (className : String) : List Modifier :=
  (sheet.resolveClass className context).filterMap Except.toOption

theorem kept_of_unknown {className : String} (h : sheet.class? className = none) :
    sheet.kept context className = [] := by
  rw [kept, resolveClass, modifiersOf, h]
  rfl

/-- Each modifier of a class is kept or not, whatever stands beside it. -/
theorem kept_of_class {className : String} {rs : List Resolvable}
    (h : sheet.class? className = some rs) :
    sheet.kept context className =
      rs.filterMap fun r => (r.resolveAs Modifier context).toOption := by
  rw [kept, resolveClass, modifiersOf, h, Option.getD_some, List.filterMap_map]
  rfl

end Stylesheet

/-- **A class list is as good as its words.**  Blanks between two class lists put the modifiers of
the second behind those of the first, and neither blanks around a class list nor how many and which
stand between its words matter.  Every class list has one list of words; its modifiers are those of
its words that have a value, in order.  A word that is no class adds none, and a modifier without a
value leaves those beside it. -/
theorem modifiers_of_class_list (sheet : Stylesheet) (context : Context) :
    (∀ a w b : String, w ≠ "" → Text.AllBlank w.toList →
      sheet.modifiers (a ++ w ++ b) context =
        sheet.modifiers a context ++ sheet.modifiers b context) ∧
    (∀ lead a trail : String, Text.AllBlank lead.toList → Text.AllBlank trail.toList →
      sheet.modifiers (lead ++ a ++ trail) context = sheet.modifiers a context) ∧
    (∀ a w w' b : String, w ≠ "" → Text.AllBlank w.toList → w' ≠ "" → Text.AllBlank w'.toList →
      sheet.modifiers (a ++ w ++ b) context = sheet.modifiers (a ++ w' ++ b) context) ∧
    (∀ a : String, ∃! words, Text.Spells words a.toList) ∧
    (∀ (a : String) (words : List String), Text.Spells words a.toList →
      sheet.modifiers a context = words.flatMap (sheet.kept context)) ∧
    (∀ word, sheet.class? word = none → sheet.kept context word = []) ∧
    ∀ word before r after e, sheet.class? word = some (before ++ r :: after) →
      r.resolveAs Modifier context = .error e →
      sheet.kept context word =
        (before ++ after).filterMap fun r => (r.resolveAs Modifier context).toOption := by
  have hjoin : ∀ a w b : String, w ≠ "" → Text.AllBlank w.toList →
      sheet.modifiers (a ++ w ++ b) context =
        sheet.modifiers a context ++ sheet.modifiers b context := by
    intro a w b hne hw
    rw [Stylesheet.modifiers, Text.words_append_blanks hne hw, List.flatMap_append]
    rfl
  refine ⟨hjoin, ?_, ?_, ?_, ?_, ?_, ?_⟩
  · intro lead a trail hlead htrail
    rw [Stylesheet.modifiers, Text.words_between_blanks hlead htrail]
    rfl
  · intro a w w' b hne hw hne' hw'
    rw [hjoin a w b hne hw, hjoin a w' b hne' hw']
  · intro a
    exact ⟨Text.words a, Text.words_eq_iff_spells.mp rfl,
      fun words hwords => (Text.words_eq_of_spells hwords).symm⟩
  · intro a words hwords
    rw [← Text.words_eq_of_spells hwords]
    rfl
  · intro word hword
    exact sheet.kept_of_unknown context hword
  · intro word before r after e hclass hfails
    rw [sheet.kept_of_class context hclass, List.filterMap_append, List.filterMap_cons, hfails,
      List.filterMap_append]
    rfl

/-- A class of three modifiers, one of which has no value, a word that is no class, and four kinds
of blanks. -/
theorem modifiers_of_class_list_card :
    let bold := Modifier.fontWeight .bold
    let thin := Modifier.fontWeight .thin
    let unset := Resolvable.bound ⟨"weight", .float, none⟩
    let sheet : Stylesheet :=
      ⟨Table.empty.insert "card" [.constant (.modifier bold), unset, .constant (.modifier thin)]⟩
    let context : Context := ⟨fun _ => none, .standard⟩
    Text.AllBlank "\t\u00a0".toList ∧ Text.Spells ["nope", "card"] "nope\u3000card".toList ∧
      sheet.class? "nope" = none ∧
      sheet.modifiers ("nope\u3000card" ++ "\t\u00a0" ++ "card ") context =
        [bold, thin, bold, thin] := by
  intro bold thin unset sheet context
  obtain ⟨hjoin, haround, -, -, hwords, hunknown, hfails⟩ := modifiers_of_class_list sheet context
  have hw : Text.AllBlank "\t\u00a0".toList := by decide
  have hspells : Text.Spells ["nope", "card"] "nope\u3000card".toList :=
    Text.words_eq_iff_spells.mp (by decide +kernel)
  have hnope : sheet.class? "nope" = none := by decide +kernel
  have hkept : sheet.kept context "card" = [bold, thin] :=
    hfails "card" [.constant (.modifier bold)] unset [.constant (.modifier thin)] _ (by rfl) rfl
  have hfront : sheet.modifiers "nope\u3000card" context = [bold, thin] := by
    rw [hwords _ _ hspells, List.flatMap_cons, hunknown "nope" hnope, List.flatMap_singleton, hkept]
    rfl
  have hcard : sheet.modifiers "card" context = [bold, thin] := by
    rw [hwords "card" ["card"] (Text.words_eq_iff_spells.mp (by decide +kernel)),
      List.flatMap_singleton, hkept]
  have hback : sheet.modifiers "card " context = [bold, thin] :=
    (haround "" "card" " " nofun (by decide)).trans hcard
  exact ⟨hw, hspells, hnope, by rw [hjoin _ _ _ (by decide) hw, hfront, hback]; rfl⟩

end DeferredStyle
