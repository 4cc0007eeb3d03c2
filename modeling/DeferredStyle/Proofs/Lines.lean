import DeferredStyle.Proofs.Versions

/-!
# Lines

Texts that are joined by line feeds are cut into the same texts again, and a line that is indented
tells how far.

* `Text.OnOneLine` — no line ends; `Text.IsPhrase` — a text that can be told from its indentation.
* `Text.indentation_spaces_append` — the indentation of a line is read back.
* `Text.lines_intercalate` — lines that are joined are cut again.
* `Text.pieces_intercalate_concat` — what follows lines is cut on its own.
-/

set_option autoImplicit false

namespace DeferredStyle

namespace Text

/-- What stands between the line feeds of a text. -/
def pieces (text : String) : List String :=
  (splitAt (· == '\n') text.toList).map String.ofList

/-- Neither a line feed nor a carriage return. -/
def OnOneLine (text : String) : Prop := ∀ c ∈ text.toList, c ≠ '\n' ∧ c ≠ '\r'

instance (text : String) : Decidable (OnOneLine text) :=
  List.decidableBAll (fun c => c ≠ '\n' ∧ c ≠ '\r') text.toList

/-- Spaces. -/
def spaces (n : Nat) : String := String.ofList (List.replicate n ' ')

/-- How many spaces a line starts with. -/
def indentation (line : String) : Nat := (line.toList.takeWhile (· == ' ')).length

/-- A text that can be told from its indentation: it stays on its line and starts with a character
other than a space. -/
structure IsPhrase (text : String) : Prop where
  head_solid : ∃ c ∈ text.toList.head?, c ≠ ' '
  onOneLine : OnOneLine text

theorem onOneLine_append {a b : String} : OnOneLine (a ++ b) ↔ OnOneLine a ∧ OnOneLine b := by
  simp only [OnOneLine, String.toList_append, List.forall_mem_append]

theorem onOneLine_spaces (n : Nat) : OnOneLine (spaces n) := by
  intro c hc
  rw [spaces, String.toList_ofList] at hc
  rw [List.eq_of_mem_replicate hc]
  decide

theorem onOneLine_intercalate {sep : String} {texts : List String} (hsep : OnOneLine sep)
    (h : ∀ text ∈ texts, OnOneLine text) : OnOneLine (sep.intercalate texts) := by
  induction texts with
  | nil => exact nofun
  | cons text texts ih =>
    obtain ⟨htext, htexts⟩ := List.forall_mem_cons.mp h
    cases texts with
    | nil => rwa [String.intercalate_singleton]
    | cons next texts =>
      rw [String.intercalate_cons_cons]
      exact onOneLine_append.mpr ⟨onOneLine_append.mpr ⟨htext, hsep⟩, ih htexts⟩

theorem isDigit_of_mem_toString {n : Nat} {c : Char} (h : c ∈ (toString n).toList) :
    c.isDigit = true := by
  rw [Nat.toString_eq_ofList_toDigits, String.toList_ofList] at h
  exact Nat.isDigit_of_mem_toDigits (by decide) (by decide) h

theorem onOneLine_toString (n : Nat) : OnOneLine (toString n) := by
  intro c hc
  have hdigit := isDigit_of_mem_toString hc
  constructor <;> rintro rfl <;> exact absurd hdigit (by decide)

theorem IsPhrase.append {a b : String} (ha : IsPhrase a) (hb : OnOneLine b) :
    IsPhrase (a ++ b) := by
  refine ⟨?_, onOneLine_append.mpr ⟨ha.onOneLine, hb⟩⟩
  obtain ⟨c, hc, hsolid⟩ := ha.head_solid
  refine ⟨c, ?_, hsolid⟩
  rw [String.toList_append, List.head?_append, Option.mem_def.mp hc]
  rfl

theorem spaces_append_spaces (m n : Nat) : spaces m ++ spaces n = spaces (m + n) := by
  rw [spaces, spaces, spaces, ← String.ofList_append, List.replicate_append_replicate]

/-- The indentation of a line that is a phrase behind spaces. -/
theorem indentation_spaces_append (n : Nat) {phrase : String} (h : IsPhrase phrase) :
    indentation (spaces n ++ phrase) = n := by
  obtain ⟨c, hc, hsolid⟩ := h.head_solid
  obtain ⟨rest, hrest⟩ := List.head?_eq_some_iff.mp hc
  have hspaces : (List.replicate n ' ').takeWhile (· == ' ') = List.replicate n ' ' :=
    List.takeWhile_eq_self_iff.mpr fun d hd => by rw [List.eq_of_mem_replicate hd]; rfl
  rw [indentation, spaces, String.toList_append, String.toList_ofList, hrest,
    List.takeWhile_append_of_pos fun d hd => by rw [List.eq_of_mem_replicate hd]; rfl,
    List.takeWhile_cons_of_neg (by simpa using hsolid), List.append_nil, List.length_replicate]

/-! ## Joining and cutting -/

theorem intercalate_cons_eq_join (first : String) (rest : List String) :
    "\n".intercalate (first :: rest) = first ++ String.join (rest.map ("\n" ++ ·)) := by
  induction rest generalizing first with
  | nil =>
    rw [String.intercalate_singleton]
    simp
  | cons next rest ih =>
    rw [String.intercalate_cons_cons, ih, List.map_cons, String.join_cons, String.append_assoc,
      String.append_assoc]

theorem linesOfPieces_of_full {pieces : List (List Char)}
    (h : ∀ piece ∈ pieces, piece ≠ [] ∧ '\r' ∉ piece) : linesOfPieces pieces = pieces := by
  induction pieces with
  | nil => rfl
  | cons piece pieces ih =>
    obtain ⟨⟨hne, hreturn⟩, hrest⟩ := List.forall_mem_cons.mp h
    cases pieces with
    | nil => rw [linesOfPieces, if_neg (by simpa using hne)]
    | cons next rest =>
      have hpiece : dropFinalReturn piece = piece := by
        unfold dropFinalReturn
        split
        · rename_i hlast
          exact absurd (List.mem_of_getLast? hlast) hreturn
        · rfl
      rw [linesOfPieces, hpiece, ih hrest]

/-- **Lines that are joined are cut again.** -/
theorem lines_intercalate {ls : List String} (hne : ls ≠ [])
    (h : ∀ l ∈ ls, l ≠ "" ∧ OnOneLine l) : lines ("\n".intercalate ls) = ls := by
  have hcut : splitAt (· == '\n') ("\n".intercalate ls).toList = ls.map String.toList := by
    refine splitAt_eq_iff.mpr ⟨by simpa using hne, ?_, ?_⟩
    · intro piece hpiece hmem
      obtain ⟨l, hl, rfl⟩ := List.mem_map.mp hpiece
      exact ((h l hl).2 _ hmem).1 rfl
    · rw [String.toList_intercalate]
      rfl
  rw [lines, hcut, linesOfPieces_of_full, List.map_map]
  · simp [Function.comp_def]
  · intro piece hpiece
    obtain ⟨l, hl, rfl⟩ := List.mem_map.mp hpiece
    exact ⟨by simpa using (h l hl).1, fun hmem => ((h l hl).2 _ hmem).2 rfl⟩

/-- What follows lines that are joined is cut on its own. -/
theorem pieces_intercalate_concat {ls : List String} (h : ∀ l ∈ ls, '\n' ∉ l.toList)
    (last : String) : pieces ("\n".intercalate (ls ++ [last])) = ls ++ pieces last := by
  induction ls with
  | nil => rw [List.nil_append, String.intercalate_singleton, List.nil_append]
  | cons l ls ih =>
    obtain ⟨hl, hls⟩ := List.forall_mem_cons.mp h
    have hne : ls ++ [last] ≠ [] := by simp
    have hsolid : ∀ c ∈ l.toList, (c == '\n') = false := fun c hc =>
      beq_eq_false_iff_ne.mpr fun heq => hl (heq ▸ hc)
    have hfeed : "\n".toList = ['\n'] := rfl
    have hcut := splitAt_append_cons (p := (· == '\n')) (beq_self_eq_true '\n') l.toList
      ("\n".intercalate (ls ++ [last])).toList
    rw [List.cons_append, String.intercalate_cons_of_ne_nil hne, pieces, String.toList_append,
      String.toList_append, List.append_assoc, hfeed, List.singleton_append, hcut,
      splitAt_of_none hsolid, List.map_append, ← pieces, ih hls, List.map_singleton,
      String.ofList_toList]
    rfl

theorem no_lineFeed_of_mem_lines {text line : String} (h : line ∈ lines text) :
    '\n' ∉ line.toList := by
  have hpieces : ∀ pieces : List (List Char), (∀ piece ∈ pieces, '\n' ∉ piece) →
      ∀ piece ∈ linesOfPieces pieces, '\n' ∉ piece := by
    intro pieces hfree
    induction pieces with
    | nil => exact nofun
    | cons piece pieces ih =>
      obtain ⟨hpiece, hrest⟩ := List.forall_mem_cons.mp hfree
      cases pieces with
      | nil =>
        rw [linesOfPieces]
        split
        · exact nofun
        · exact hfree
      | cons next rest =>
        rw [linesOfPieces]
        refine List.forall_mem_cons.mpr ⟨?_, ih hrest⟩
        unfold dropFinalReturn
        split
        · exact fun hmem => hpiece ((List.dropLast_sublist piece).subset hmem)
        · exact hpiece
  obtain ⟨piece, hpiece, rfl⟩ := List.mem_map.mp h
  rw [String.toList_ofList]
  obtain ⟨-, hfree, -⟩ := splitAt_eq_iff.mp (rfl : splitAt (· == '\n') text.toList = _)
  exact hpieces _ hfree piece hpiece

/-- A text that is not empty has a line. -/
theorem lines_ne_nil {text : String} (h : text ≠ "") : lines text ≠ [] := by
  rw [lines, ne_eq, List.map_eq_nil_iff]
  have hne := splitAt_ne_nil (· == '\n') text.toList
  obtain ⟨-, -, hjoin⟩ := splitAt_eq_iff.mp (rfl : splitAt (· == '\n') text.toList = _)
  match hpieces : splitAt (· == '\n') text.toList with
  | [] => exact absurd hpieces hne
  | [last] =>
    rw [hpieces, List.intercalate_singleton] at hjoin
    subst hjoin
    rw [linesOfPieces, if_neg (by simpa using h)]
    exact List.cons_ne_nil _ _
  | piece :: next :: rest =>
    rw [linesOfPieces]
    exact List.cons_ne_nil _ _

end Text

end DeferredStyle
