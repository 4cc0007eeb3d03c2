import DeferredStyle.Failure.Decode
import DeferredStyle.Proofs.Lines

/-!
# The tree of failures in its text

The text of failures is their tree in preorder, one line for each thing that is said, and how far a
line is indented tells the group that it belongs to.  So the tree of attempts is read back from the
text.

* `DecodeError.induction` — induction over the failures inside an error.
* `Failures.preorder` — the tree of failures, line by line; `Failures.lines_text` — these are the
  lines of its text.
* `Nesting` — the tree of attempts.
* `Nesting.count_indentsEach` — the indentations of lines tell how many attempts there are;
  `Nesting.read_indentsEach` — they tell the whole tree.
* `Nesting.ofText_text` — the text tells the tree.
-/

set_option autoImplicit false

namespace DeferredStyle

/-! ## Errors with failures inside -/

/-- Induction over errors: an error that carries failures may assume the motive for the errors of
their attempts. -/
@[elab_as_elim]
theorem DecodeError.induction {motive : DecodeError → Prop}
    (plain : ∀ e, (∀ label failures, e ≠ .nested label failures) → motive e)
    (nested : ∀ label (failures : DecodeFailures),
      (∀ entry ∈ failures.entries, motive entry.error) → motive (.nested label failures))
    (e : DecodeError) : motive e :=
  @DecodeError.rec motive (fun failures => ∀ entry ∈ failures.entries, motive entry.error)
    (fun entries => ∀ entry ∈ entries, motive entry.error) (fun entry => motive entry.error)
    (fun _ => plain _ nofun) (fun _ => plain _ nofun) (fun _ => plain _ nofun)
    (fun _ _ => plain _ nofun) (fun _ _ _ => plain _ nofun) (fun _ _ => plain _ nofun)
    (fun _ _ => plain _ nofun) (plain _ nofun) (fun _ => plain _ nofun) (fun _ => plain _ nofun)
    (fun _ _ => plain _ nofun) nested (fun _ _ _ ih => ih) nofun
    (fun _ _ hhead htail => List.forall_mem_cons.mpr ⟨hhead, htail⟩) (fun _ _ ih => ih) e

mutual

/-- The strings that an error is made of. -/
def DecodeError.names : DecodeError → List String
  | .missingArgument label => [label]
  | .unknownArgument label => [label]
  | .duplicateArgument label => [label]
  | .tooManyArguments _ _ => []
  | .incorrectValue label expected found => [label, expected, found]
  | .notAttributeDecodable typeName attributeName => [typeName, attributeName]
  | .unknownCase name expected => name :: expected
  | .missingCaseName => []
  | .unknownType name => [name]
  | .unknownModifier name => [name]
  | .invalidDefault label expected => [label, expected]
  | .nested label failures => label :: DecodeError.failuresNames failures

/-- The strings that failures are made of. -/
def DecodeError.failuresNames : Failures DecodeError → List String
  | ⟨typeName, entries, _⟩ => typeName :: DecodeError.entriesNames entries

/-- The strings that attempts are made of. -/
def DecodeError.entriesNames : List (Attempt DecodeError) → List String
  | [] => []
  | ⟨shape, error⟩ :: entries => shape :: (error.names ++ DecodeError.entriesNames entries)

end

mutual

/-- The lines about an error of a group that is `level` groups deep, with their indentations. -/
def DecodeError.linesAt (level : Nat) : DecodeError → List (Nat × String)
  | .nested label failures =>
    (4 * (level + 1), s!"argument `{label}`:") :: DecodeError.groupLines (level + 1) failures
  | e => [(4 * (level + 1), e.message)]

/-- The lines of a group. -/
def DecodeError.groupLines (level : Nat) : Failures DecodeError → List (Nat × String)
  | ⟨typeName, entries, _⟩ =>
    (4 * level, s!"no matching shape for `{typeName}`") :: DecodeError.entryLines level entries

/-- The lines of the attempts of a group. -/
def DecodeError.entryLines (level : Nat) : List (Attempt DecodeError) → List (Nat × String)
  | [] => []
  | ⟨shape, error⟩ :: entries =>
    (4 * level + 2, s!"`{shape}` failed:") ::
      (error.linesAt level ++ DecodeError.entryLines level entries)

end

section Errors

variable {label : String} {failures : DecodeFailures}

theorem DecodeError.entriesNames_eq (entries : List (Attempt DecodeError)) :
    DecodeError.entriesNames entries =
      entries.flatMap fun entry => entry.shape :: entry.error.names := by
  induction entries with
  | nil => rfl
  | cons entry entries ih =>
    obtain ⟨shape, error⟩ := entry
    rw [DecodeError.entriesNames, ih]
    rfl

theorem DecodeError.linesAt_nested (level : Nat) :
    DecodeError.linesAt level (.nested label failures) =
      (4 * (level + 1), s!"argument `{label}`:") :: DecodeError.groupLines (level + 1) failures :=
  rfl

theorem DecodeError.linesAt_plain {e : DecodeError}
    (h : ∀ label failures, e ≠ .nested label failures) (level : Nat) :
    e.linesAt level = [(4 * (level + 1), e.message)] := by
  cases e with
  | nested label failures => exact absurd rfl (h label failures)
  | _ => rfl

theorem DecodeError.groupLines_eq (level : Nat) (failures : DecodeFailures) :
    DecodeError.groupLines level failures =
      (4 * level, s!"no matching shape for `{failures.typeName}`") ::
        failures.entries.flatMap fun entry =>
          (4 * level + 2, s!"`{entry.shape}` failed:") :: entry.error.linesAt level := by
  obtain ⟨typeName, entries, annotations⟩ := failures
  have hentries : DecodeError.entryLines level entries = entries.flatMap fun entry =>
      (4 * level + 2, s!"`{entry.shape}` failed:") :: entry.error.linesAt level := by
    induction entries with
    | nil => rfl
    | cons entry entries ih =>
      obtain ⟨shape, error⟩ := entry
      rw [DecodeError.entryLines, ih]
      rfl
  rw [DecodeError.groupLines, hentries]

theorem DecodeError.message_nested :
    (DecodeError.nested label failures).message = s!"argument `{label}`:\n" ++ failures.text := rfl

theorem attemptTexts_eq (entries : List (Attempt DecodeError)) :
    DecodeError.attemptTexts entries =
      entries.map fun entry => attemptText entry.shape entry.error.message := by
  induction entries with
  | nil => rfl
  | cons entry entries ih => rw [DecodeError.attemptTexts, ih, List.map_cons]

/-- The lines of the text of failures, given those of the texts of their errors. -/
theorem Failures.text_eq (failures : DecodeFailures) :
    failures.text = "\n".intercalate (s!"no matching shape for `{failures.typeName}`" ::
      failures.entries.flatMap fun entry =>
        s!"  `{entry.shape}` failed:" ::
          (Text.lines entry.error.message).map ("    " ++ ·)) := by
  obtain ⟨typeName, entries, annotations⟩ := failures
  have hentry (entry : Attempt DecodeError) :
      attemptText entry.shape entry.error.message =
        String.join ((s!"  `{entry.shape}` failed:" ::
          (Text.lines entry.error.message).map ("    " ++ ·)).map ("\n" ++ ·)) := by
    rw [List.map_cons, String.join_cons, List.map_map]
    rfl
  have hentries : String.join (DecodeError.attemptTexts entries) =
      String.join ((entries.flatMap fun entry =>
        s!"  `{entry.shape}` failed:" ::
          (Text.lines entry.error.message).map ("    " ++ ·)).map ("\n" ++ ·)) := by
    rw [attemptTexts_eq]
    induction entries with
    | nil => rfl
    | cons entry entries ih =>
      rw [List.map_cons, String.join_cons, ih, hentry, List.flatMap_cons, List.map_append,
        String.join_append]
  rw [Text.intercalate_cons_eq_join, ← hentries]
  rfl

end Errors

/-! ## The lines of failures -/

/-- The strings that failures are made of, those of their annotations apart. -/
def Failures.names (failures : DecodeFailures) : List String :=
  DecodeError.failuresNames failures

/-- The tree of failures in preorder: its lines with their indentations. -/
def Failures.preorder (failures : DecodeFailures) : List (Nat × String) :=
  DecodeError.groupLines 0 failures

/-- The line about an attempt, as the text of failures indents it. -/
theorem attempt_line (shape : String) :
    s!"  `{shape}` failed:" = Text.spaces 2 ++ s!"`{shape}` failed:" := by
  have hspaces : "  `" = Text.spaces 2 ++ "`" := by decide
  show "  `" ++ shape ++ "` failed:" = Text.spaces 2 ++ ("`" ++ shape ++ "` failed:")
  rw [hspaces, String.append_assoc, String.append_assoc, String.append_assoc]

/-- The first line of an error with failures, as its message ends it. -/
theorem argument_line (label : String) :
    s!"argument `{label}`:\n" = s!"argument `{label}`:" ++ "\n" := by
  have hfeed : "`:\n" = "`:" ++ "\n" := by decide
  show "argument `" ++ label ++ "`:\n" = "argument `" ++ label ++ "`:" ++ "\n"
  rw [hfeed, ← String.append_assoc]

/-- A line as it is shown. -/
def shownLine (line : Nat × String) : String := Text.spaces line.1 ++ line.2

section Phrases

open Text (IsPhrase OnOneLine onOneLine_append)

theorem isPhrase_of_decide {text : String} (hhead : text.toList.head?.any (· ≠ ' ') = true)
    (hline : OnOneLine text) : IsPhrase text := by
  obtain ⟨c, hc, hsolid⟩ := (Option.any_eq_true _ _).mp hhead
  exact ⟨⟨c, hc, of_decide_eq_true hsolid⟩, hline⟩

/-- A string between the two parts of a message. -/
theorem isPhrase_around {front name back : String} (hfront : IsPhrase front)
    (hname : OnOneLine name) (hback : OnOneLine back) : IsPhrase (front ++ name ++ back) :=
  (hfront.append hname).append hback

theorem onOneLine_quotedList {items : List String} (h : ∀ item ∈ items, OnOneLine item) :
    OnOneLine (quotedList items) := by
  refine Text.onOneLine_intercalate (by decide) fun text htext => ?_
  obtain ⟨item, hitem, rfl⟩ := List.mem_map.mp htext
  exact onOneLine_append.mpr ⟨onOneLine_append.mpr ⟨by decide, h item hitem⟩, by decide⟩

theorem isPhrase_shape (shape : String) (h : OnOneLine shape) : IsPhrase s!"`{shape}` failed:" :=
  isPhrase_around (isPhrase_of_decide rfl (by decide)) h (by decide)

/-- The message of an error without failures is a single line. -/
theorem isPhrase_message {e : DecodeError} (hplain : ∀ label failures, e ≠ .nested label failures)
    (h : ∀ name ∈ e.names, OnOneLine name) : IsPhrase e.message := by
  have hquote : OnOneLine "`" := by decide
  cases e with
  | missingArgument name | unknownArgument name | duplicateArgument name | unknownType name
  | unknownModifier name =>
    exact isPhrase_around (isPhrase_of_decide rfl (by decide)) (h _ List.mem_cons_self) hquote
  | tooManyArguments expected found =>
    exact (isPhrase_around (isPhrase_of_decide rfl (by decide)) (Text.onOneLine_toString expected)
      (by decide)).append (Text.onOneLine_toString found)
  | incorrectValue label expected found =>
    obtain ⟨hlabel, hexpected, hfound⟩ :
        OnOneLine label ∧ OnOneLine expected ∧ OnOneLine found := by
      simpa [DecodeError.names] using h
    exact isPhrase_around (isPhrase_around (isPhrase_around (isPhrase_of_decide rfl (by decide))
      hlabel (by decide)) hexpected (by decide)) hfound hquote
  | notAttributeDecodable first second | invalidDefault first second =>
    obtain ⟨hfirst, hsecond⟩ : OnOneLine first ∧ OnOneLine second := by
      simpa [DecodeError.names] using h
    exact isPhrase_around (isPhrase_around (isPhrase_of_decide rfl (by decide)) hfirst (by decide))
      hsecond hquote
  | unknownCase name expected =>
    obtain ⟨hname, hexpected⟩ := List.forall_mem_cons.mp h
    exact (isPhrase_around (isPhrase_of_decide rfl (by decide)) hname (by decide)).append
      (onOneLine_quotedList hexpected)
  | missingCaseName => exact isPhrase_of_decide rfl (by decide)
  | nested label failures => exact absurd rfl (hplain label failures)

end Phrases

section Lines

open Text (OnOneLine onOneLine_append)

theorem Failures.names_eq (failures : DecodeFailures) :
    failures.names = failures.typeName ::
      failures.entries.flatMap fun entry => entry.shape :: entry.error.names := by
  obtain ⟨typeName, entries, annotations⟩ := failures
  rw [Failures.names, DecodeError.failuresNames, DecodeError.entriesNames_eq]

theorem DecodeError.names_nested {label : String} {failures : DecodeFailures} :
    (DecodeError.nested label failures).names = label :: failures.names := rfl

/-- What holds of all strings of failures holds of those of each attempt. -/
theorem Failures.forall_names_iff {P : String → Prop} {failures : DecodeFailures} :
    (∀ name ∈ failures.names, P name) ↔
      P failures.typeName ∧
        ∀ entry ∈ failures.entries, P entry.shape ∧ ∀ name ∈ entry.error.names, P name := by
  simp only [Failures.names_eq, List.forall_mem_cons, List.forall_mem_flatMap]

/-- The lines of a text are neither empty nor cut any further. -/
def FullLines (lines : List String) : Prop := ∀ line ∈ lines, line ≠ "" ∧ OnOneLine line

theorem fullLines_phrase_cons {phrase : String} {lines : List String}
    (hphrase : Text.IsPhrase phrase) (hlines : FullLines lines) : FullLines (phrase :: lines) := by
  refine List.forall_mem_cons.mpr ⟨⟨?_, hphrase.onOneLine⟩, hlines⟩
  rintro rfl
  obtain ⟨c, hc, -⟩ := hphrase.head_solid
  cases hc

theorem fullLines_indent {n : Nat} {lines : List String} (h : FullLines lines) :
    FullLines (lines.map (Text.spaces n ++ ·)) := by
  intro line hline
  obtain ⟨inner, hinner, rfl⟩ := List.mem_map.mp hline
  obtain ⟨hne, hone⟩ := h inner hinner
  exact ⟨by simp [hne], onOneLine_append.mpr ⟨Text.onOneLine_spaces n, hone⟩⟩

theorem map_spaces_map_spaces (m n : Nat) (lines : List String) :
    (lines.map (Text.spaces n ++ ·)).map (Text.spaces m ++ ·) =
      lines.map (Text.spaces (m + n) ++ ·) := by
  rw [List.map_map]
  refine List.map_congr_left fun line _ => ?_
  rw [Function.comp_apply, ← String.append_assoc, Text.spaces_append_spaces]

/-- The lines of an error are those of the preorder, further out. -/
def HasLines (e : DecodeError) : Prop :=
  FullLines (Text.lines e.message) ∧
    ∀ level, (Text.lines e.message).map (Text.spaces (4 * (level + 1)) ++ ·) =
      (e.linesAt level).map shownLine

/-- The lines of failures, if their errors have the lines of the preorder. -/
theorem Failures.lines_of_entries {failures : DecodeFailures}
    (hnames : ∀ name ∈ failures.names, OnOneLine name)
    (hentries : ∀ entry ∈ failures.entries, HasLines entry.error) :
    ∃ lines, failures.text = "\n".intercalate lines ∧ lines ≠ [] ∧ FullLines lines ∧
      ∀ level, lines.map (Text.spaces (4 * level) ++ ·) =
        (DecodeError.groupLines level failures).map shownLine := by
  obtain ⟨htype, hshapes⟩ := Failures.forall_names_iff.mp hnames
  refine ⟨_, failures.text_eq, List.cons_ne_nil _ _, ?_, fun level => ?_⟩
  · refine fullLines_phrase_cons
      (isPhrase_around (isPhrase_of_decide rfl (by decide)) htype (by decide)) fun line hline => ?_
    obtain ⟨entry, hentry, hline⟩ := List.mem_flatMap.mp hline
    obtain ⟨hfull, -⟩ := hentries entry hentry
    have hheader : FullLines [s!"`{entry.shape}` failed:"] :=
      fullLines_phrase_cons (isPhrase_shape _ (hshapes entry hentry).1) nofun
    rcases List.mem_cons.mp hline with rfl | hline
    · rw [attempt_line]
      exact fullLines_indent (n := 2) hheader _ List.mem_cons_self
    · exact fullLines_indent (n := 4) hfull _ hline
  · rw [DecodeError.groupLines_eq, List.map_cons, List.map_cons, List.map_flatMap, List.map_flatMap]
    refine congrArg _ (List.flatMap_congr fun entry hentry => ?_)
    obtain ⟨-, hlines⟩ := hentries entry hentry
    rw [List.map_cons, List.map_cons, ← hlines level, Nat.mul_succ, ← map_spaces_map_spaces]
    refine congrArg (· :: _) ?_
    rw [attempt_line, shownLine, ← Text.spaces_append_spaces]
    exact String.append_assoc.symm

theorem hasLines (e : DecodeError) (hnames : ∀ name ∈ e.names, OnOneLine name) : HasLines e := by
  induction e using DecodeError.induction with
  | plain e hplain =>
    have hphrase := isPhrase_message hplain hnames
    have hfull : FullLines [e.message] := fullLines_phrase_cons hphrase nofun
    have hlines : Text.lines e.message = [e.message] := by
      have hcut := Text.lines_intercalate (List.cons_ne_nil _ _) hfull
      rwa [String.intercalate_singleton] at hcut
    rw [HasLines, hlines]
    refine ⟨hfull, fun level => ?_⟩
    rw [DecodeError.linesAt_plain hplain]
    rfl
  | nested label failures ih =>
    rw [DecodeError.names_nested] at hnames
    obtain ⟨hlabel, hnames⟩ := List.forall_mem_cons.mp hnames
    obtain ⟨-, hshapes⟩ := Failures.forall_names_iff.mp hnames
    obtain ⟨lines, htext, hne, hfull, hgroup⟩ := Failures.lines_of_entries hnames
      fun entry hentry => ih entry hentry (hshapes entry hentry).2
    have hargument : Text.IsPhrase s!"argument `{label}`:" :=
      isPhrase_around (isPhrase_of_decide rfl (by decide)) hlabel (by decide)
    have hall := fullLines_phrase_cons hargument hfull
    have hmessage : (DecodeError.nested label failures).message =
        "\n".intercalate (s!"argument `{label}`:" :: lines) := by
      rw [DecodeError.message_nested, argument_line, htext, String.intercalate_cons_of_ne_nil hne]
    rw [HasLines, hmessage, Text.lines_intercalate (List.cons_ne_nil _ _) hall]
    refine ⟨hall, fun level => ?_⟩
    rw [DecodeError.linesAt_nested, List.map_cons, List.map_cons, hgroup]
    rfl

/-- **The lines of the text of failures are their tree in preorder.** -/
theorem Failures.lines_text {failures : DecodeFailures}
    (hnames : ∀ name ∈ failures.names, OnOneLine name) :
    Text.lines failures.text = failures.preorder.map shownLine := by
  obtain ⟨-, hshapes⟩ := Failures.forall_names_iff.mp hnames
  obtain ⟨lines, htext, hne, hfull, hgroup⟩ := Failures.lines_of_entries hnames
    fun entry hentry => hasLines entry.error (hshapes entry hentry).2
  have hspaces : Text.spaces (4 * 0) = "" := rfl
  have hlines := hgroup 0
  simp only [hspaces, String.empty_append, List.map_id'] at hlines
  rw [htext, Text.lines_intercalate hne hfull, hlines, Failures.preorder]

end Lines

/-! ## Reading the tree back -/

/-- How an attempt failed: by itself, or at a node with attempts of its own. -/
inductive Nesting where
  | leaf
  | group (attempts : List Nesting)

mutual

/-- How an error nests. -/
def DecodeError.nesting : DecodeError → Nesting
  | .nested _ failures => .group (DecodeError.groupNesting failures)
  | _ => .leaf

/-- How the attempts of a group nest. -/
def DecodeError.groupNesting : Failures DecodeError → List Nesting
  | ⟨_, entries, _⟩ => DecodeError.entriesNesting entries

/-- How attempts nest. -/
def DecodeError.entriesNesting : List (Attempt DecodeError) → List Nesting
  | [] => []
  | ⟨_, error⟩ :: entries => error.nesting :: DecodeError.entriesNesting entries

end

/-- How the attempts of failures nest. -/
def Failures.nesting (failures : DecodeFailures) : List Nesting :=
  DecodeError.groupNesting failures

namespace Nesting

/-- The attempts inside an attempt. -/
def inner : Nesting → List Nesting
  | leaf => []
  | group attempts => attempts

/-- The attempts of the groups that are `n` groups deep. -/
def attemptsAt : Nat → List Nesting → List Nesting
  | 0, attempts => attempts
  | n + 1, attempts => attemptsAt n (attempts.flatMap inner)

mutual

/-- The indentations of the lines about an error of a group that is `level` groups deep. -/
def indents (level : Nat) : Nesting → List Nat
  | leaf => [4 * (level + 1)]
  | group attempts =>
    4 * (level + 1) :: 4 * (level + 1) :: indentsEach (level + 1) attempts

/-- The indentations of the lines about the attempts of a group. -/
def indentsEach (level : Nat) : List Nesting → List Nat
  | [] => []
  | attempt :: attempts => (4 * level + 2) :: (attempt.indents level ++ indentsEach level attempts)

end

/-- The attempts of a group that is `level` groups deep, read from the indentations of their lines,
and the indentations of what follows.  An error takes one line, or a line that says which argument
is to blame and the header of a group. -/
def read : Nat → Nat → List Nat → List Nesting × List Nat
  | 0, _, lines => ([], lines)
  | fuel + 1, level, lines =>
    match lines with
    | attempt :: _ :: rest =>
      if attempt = 4 * level + 2 then
        if rest.head? = some (4 * (level + 1)) then
          let inner := read fuel (level + 1) rest.tail
          let later := read fuel level inner.2
          (group inner.1 :: later.1, later.2)
        else
          let later := read fuel level rest
          (leaf :: later.1, later.2)
      else ([], lines)
    | _ => ([], lines)

/-- The tree of attempts that the lines of a text tell. -/
def ofText (text : String) : List Nesting :=
  let lines := (Text.lines text).map Text.indentation
  (read lines.length 0 lines.tail).1

/-- What follows a group belongs to a group further out. -/
def EndsGroup (level : Nat) (rest : List Nat) : Prop := ∀ i ∈ rest.head?, i < 4 * level + 2

theorem endsGroup_succ {level : Nat} {rest : List Nat} (h : EndsGroup level rest)
    (attempts : List Nesting) : ∀ i ∈ (indentsEach level attempts ++ rest).head?,
      i < 4 * (level + 1) := by
  intro i hi
  cases attempts with
  | nil =>
    have hlt := h i hi
    omega
  | cons attempt attempts =>
    rw [indentsEach] at hi
    cases hi
    omega

theorem read_of_endsGroup {fuel level : Nat} {rest : List Nat} (h : EndsGroup level rest) :
    read fuel level rest = ([], rest) := by
  cases fuel with
  | zero => rfl
  | succ fuel =>
    match rest with
    | [] => rfl
    | [_] => rfl
    | attempt :: error :: rest =>
      have hne : attempt ≠ 4 * level + 2 := (h attempt rfl).ne
      rw [read, if_neg hne]

/-- **Attempts are read back from the indentations of their lines.** -/
theorem read_indentsEach (fuel level : Nat) (attempts : List Nesting) (rest : List Nat)
    (hfuel : (indentsEach level attempts).length ≤ fuel) (hrest : EndsGroup level rest) :
    read fuel level (indentsEach level attempts ++ rest) = (attempts, rest) := by
  induction fuel generalizing level attempts rest with
  | zero =>
    cases attempts with
    | nil => rfl
    | cons attempt attempts =>
      rw [indentsEach, List.length_cons] at hfuel
      omega
  | succ fuel ih =>
    cases attempts with
    | nil => exact read_of_endsGroup hrest
    | cons attempt attempts =>
      have hlater := endsGroup_succ hrest attempts
      cases attempt with
      | leaf =>
        have hleaf : (indentsEach level attempts ++ rest).head? ≠ some (4 * (level + 1)) :=
          fun hhead => (hlater _ hhead).false
        simp only [indentsEach, indents, List.length_cons, List.length_append] at hfuel
        simp only [indentsEach, indents, List.cons_append, List.nil_append]
        rw [read, if_pos rfl, if_neg hleaf, ih level attempts rest (by omega) hrest]
      | group inner =>
        simp only [indentsEach, indents, List.length_cons, List.length_append] at hfuel
        simp only [indentsEach, indents, List.cons_append, List.append_assoc]
        have hinner : read fuel (level + 1)
            (indentsEach (level + 1) inner ++ (indentsEach level attempts ++ rest)) =
            (inner, indentsEach level attempts ++ rest) :=
          ih (level + 1) inner _ (by omega) fun i hi => by
            have hlt := hlater i hi
            omega
        rw [read, if_pos rfl, if_pos List.head?_cons, List.tail_cons, hinner]
        dsimp only
        rw [ih level attempts rest (by omega) hrest]

/-! ### Counting -/

mutual

theorem le_of_mem_indents {level i : Nat} :
    ∀ {attempt : Nesting}, i ∈ attempt.indents level → 4 * (level + 1) ≤ i
  | leaf, h => (List.mem_singleton.mp h).ge
  | group attempts, h => by
    rw [indents, List.mem_cons, List.mem_cons] at h
    rcases h with rfl | rfl | h
    · exact le_rfl
    · exact le_rfl
    · have hle := le_of_mem_indentsEach h
      omega

theorem le_of_mem_indentsEach {level i : Nat} :
    ∀ {attempts : List Nesting}, i ∈ indentsEach level attempts → 4 * level + 2 ≤ i
  | [], h => absurd h List.not_mem_nil
  | attempt :: attempts, h => by
    rw [indentsEach, List.mem_cons, List.mem_append] at h
    rcases h with rfl | h | h
    · exact le_rfl
    · have hle := le_of_mem_indents h
      omega
    · exact le_of_mem_indentsEach h

end

theorem indentsEach_append (level : Nat) (before after : List Nesting) :
    indentsEach level (before ++ after) = indentsEach level before ++ indentsEach level after := by
  induction before with
  | nil => rfl
  | cons attempt before ih =>
    rw [List.cons_append, indentsEach, indentsEach, ih, List.cons_append, List.append_assoc]

/-- The attempts further in than a group are those of the groups inside it. -/
theorem count_indentsEach_inner {level depth : Nat} (hdepth : level < depth)
    (attempts : List Nesting) :
    (indentsEach level attempts).count (4 * depth + 2) =
      (indentsEach (level + 1) (attempts.flatMap inner)).count (4 * depth + 2) := by
  induction attempts with
  | nil => rfl
  | cons attempt attempts ih =>
    have hheader : 4 * level + 2 ≠ 4 * depth + 2 := by omega
    have hline : 4 * (level + 1) ≠ 4 * depth + 2 := by omega
    have hattempt : (attempt.indents level).count (4 * depth + 2) =
        (indentsEach (level + 1) attempt.inner).count (4 * depth + 2) := by
      cases attempt with
      | leaf => rw [indents, List.count_cons_of_ne hline]; rfl
      | group attempts =>
        rw [indents, List.count_cons_of_ne hline, List.count_cons_of_ne hline]
        rfl
    rw [indentsEach, List.count_cons_of_ne hheader, List.count_append, ih, hattempt,
      List.flatMap_cons, indentsEach_append, List.count_append]

/-- **The lines with the indentation of attempts are as many as the attempts.** -/
theorem count_indentsEach (n level : Nat) (attempts : List Nesting) :
    (indentsEach level attempts).count (4 * (level + n) + 2) = (attemptsAt n attempts).length := by
  induction n generalizing level attempts with
  | zero =>
    induction attempts with
    | nil => rfl
    | cons attempt attempts ih =>
      have hinner : (attempt.indents level).count (4 * (level + 0) + 2) = 0 := by
        refine List.count_eq_zero.mpr fun hmem => ?_
        have hle := le_of_mem_indents hmem
        omega
      rw [indentsEach, List.count_cons, List.count_append, hinner, ih]
      simp [attemptsAt]
  | succ n ih =>
    have hlevel : level + (n + 1) = level + 1 + n := by omega
    rw [count_indentsEach_inner (by omega), hlevel, ih, attemptsAt]

end Nesting

/-! ### The tree of failures -/

theorem Failures.nesting_eq (failures : DecodeFailures) :
    failures.nesting = failures.entries.map fun entry => entry.error.nesting := by
  obtain ⟨typeName, entries, annotations⟩ := failures
  rw [Failures.nesting, DecodeError.groupNesting]
  induction entries with
  | nil => rfl
  | cons entry entries ih =>
    obtain ⟨shape, error⟩ := entry
    rw [DecodeError.entriesNesting, ih]
    rfl

theorem Nesting.indentsEach_map {α : Type} (level : Nat) (f : α → Nesting) (as : List α) :
    indentsEach level (as.map f) =
      as.flatMap fun a => (4 * level + 2) :: (f a).indents level := by
  induction as with
  | nil => rfl
  | cons a as ih =>
    rw [List.map_cons, indentsEach, ih]
    rfl

/-- The indentations of the lines of a group, given those of its errors. -/
theorem DecodeError.groupIndents_of_entries {level : Nat} {failures : DecodeFailures}
    (h : ∀ entry ∈ failures.entries,
      (entry.error.linesAt level).map Prod.fst = entry.error.nesting.indents level) :
    (DecodeError.groupLines level failures).map Prod.fst =
      4 * level :: Nesting.indentsEach level failures.nesting := by
  rw [DecodeError.groupLines_eq, Failures.nesting_eq, Nesting.indentsEach_map, List.map_cons,
    List.map_flatMap]
  refine congrArg _ (List.flatMap_congr fun entry hentry => ?_)
  rw [List.map_cons, h entry hentry]

theorem DecodeError.indents_linesAt (e : DecodeError) (level : Nat) :
    (e.linesAt level).map Prod.fst = e.nesting.indents level := by
  induction e using DecodeError.induction generalizing level with
  | plain e hplain =>
    have hleaf : e.nesting = .leaf := by
      cases e with
      | nested label failures => exact absurd rfl (hplain label failures)
      | _ => rfl
    rw [DecodeError.linesAt_plain hplain, hleaf]
    rfl
  | nested label failures ih =>
    rw [DecodeError.linesAt_nested, List.map_cons,
      DecodeError.groupIndents_of_entries fun entry hentry => ih entry hentry (level + 1)]
    rfl

theorem Failures.indents_preorder (failures : DecodeFailures) :
    failures.preorder.map Prod.fst = 0 :: Nesting.indentsEach 0 failures.nesting :=
  DecodeError.groupIndents_of_entries fun entry _ => entry.error.indents_linesAt 0

section Read

open Text (OnOneLine IsPhrase)

/-- The lines of a group are phrases, if those of its errors are. -/
theorem DecodeError.isPhrase_of_entries {level : Nat} {failures : DecodeFailures}
    (hnames : ∀ name ∈ failures.names, OnOneLine name)
    (h : ∀ entry ∈ failures.entries, ∀ line ∈ entry.error.linesAt level, IsPhrase line.2) :
    ∀ line ∈ DecodeError.groupLines level failures, IsPhrase line.2 := by
  obtain ⟨htype, hshapes⟩ := Failures.forall_names_iff.mp hnames
  rw [DecodeError.groupLines_eq, List.forall_mem_cons]
  refine ⟨isPhrase_around (isPhrase_of_decide rfl (by decide)) htype (by decide),
    List.forall_mem_flatMap.mpr fun entry hentry => List.forall_mem_cons.mpr ⟨?_, h entry hentry⟩⟩
  exact isPhrase_shape _ (hshapes entry hentry).1

theorem DecodeError.isPhrase_linesAt (e : DecodeError) (hnames : ∀ name ∈ e.names, OnOneLine name)
    (level : Nat) : ∀ line ∈ e.linesAt level, IsPhrase line.2 := by
  induction e using DecodeError.induction generalizing level with
  | plain e hplain =>
    rw [DecodeError.linesAt_plain hplain]
    exact List.forall_mem_singleton.mpr (isPhrase_message hplain hnames)
  | nested label failures ih =>
    rw [DecodeError.names_nested] at hnames
    obtain ⟨hlabel, hnames⟩ := List.forall_mem_cons.mp hnames
    obtain ⟨-, hshapes⟩ := Failures.forall_names_iff.mp hnames
    rw [DecodeError.linesAt_nested, List.forall_mem_cons]
    refine ⟨isPhrase_around (isPhrase_of_decide rfl (by decide)) hlabel (by decide), ?_⟩
    exact DecodeError.isPhrase_of_entries hnames fun entry hentry =>
      ih entry hentry (hshapes entry hentry).2 (level + 1)

variable {failures : DecodeFailures}

/-- The indentations of the lines of failures are those of the preorder. -/
theorem Failures.indentations_text (hnames : ∀ name ∈ failures.names, OnOneLine name) :
    (Text.lines failures.text).map Text.indentation = failures.preorder.map Prod.fst := by
  obtain ⟨-, hshapes⟩ := Failures.forall_names_iff.mp hnames
  have hphrases : ∀ line ∈ failures.preorder, IsPhrase line.2 :=
    DecodeError.isPhrase_of_entries hnames fun entry hentry =>
      entry.error.isPhrase_linesAt (hshapes entry hentry).2 0
  rw [Failures.lines_text hnames, List.map_map]
  exact List.map_congr_left fun line hline =>
    Text.indentation_spaces_append line.1 (hphrases line hline)

/-- The lines with the indentation of attempts tell how many there are. -/
theorem Failures.countP_lines_text (hnames : ∀ name ∈ failures.names, OnOneLine name) (n : Nat) :
    (Text.lines failures.text).countP (fun line => Text.indentation line = 4 * n + 2) =
      (Nesting.attemptsAt n failures.nesting).length := by
  have hheader : 0 ≠ 4 * n + 2 := by omega
  have hcount := Nesting.count_indentsEach n 0 failures.nesting
  rw [Nat.zero_add, ← List.count_cons_of_ne hheader, ← Failures.indents_preorder,
    ← Failures.indentations_text hnames, List.count_eq_countP, List.countP_map] at hcount
  rw [← hcount]
  exact List.countP_congr fun line _ => by simp

/-- **The tree of attempts is read back from the text.** -/
theorem Nesting.ofText_text (hnames : ∀ name ∈ failures.names, OnOneLine name) :
    Nesting.ofText failures.text = failures.nesting := by
  have hread := Nesting.read_indentsEach
    (0 :: Nesting.indentsEach 0 failures.nesting).length 0 failures.nesting [] (by simp) nofun
  rw [List.append_nil] at hread
  rw [Nesting.ofText, Failures.indentations_text hnames, Failures.indents_preorder, List.tail_cons,
    hread]

end Read

end DeferredStyle
