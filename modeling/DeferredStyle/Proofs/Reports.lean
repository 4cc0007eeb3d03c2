import DeferredStyle.Failure.Report
import DeferredStyle.Proofs.Nesting

/-!
# Reports

A report puts the text of failures behind a gutter, below the line of the stylesheet that they are
about.  The bars of the gutter stand below each other, and no failure is lost behind it.

* `gutterLines` — the lines behind a gutter; `idxOf?_bar` — where their bars stand.
* `pieces_report` — the lines of a report.
* `failure_reports` — what reports show, and what is read back from them.
-/

set_option autoImplicit false

namespace DeferredStyle

/-! ## Gutters -/

/-- The lines behind the gutter of a report: the empty margin, the line of the stylesheet behind its
number, and the lines of a message, of which the first is marked. -/
def gutterLines (number source first : String) (rest : List String) : List String :=
  let margin := " " ++ Text.spaces number.length ++ " |"
  margin :: (" " ++ number ++ " | " ++ source) :: (margin ++ " ^ " ++ first) ::
    rest.map fun line => margin ++ "   " ++ line

section Gutters

variable {number source first : String} {rest : List String}

/-- What holds of all lines behind a gutter: they start with a field as wide as the number and a
bar, and end with what is shown. -/
theorem forall_mem_gutterLines {P : String → Prop}
    (h : ∀ field shown : String, field = number ∨ field = Text.spaces number.length →
      (shown = "" ∨ shown = " " ++ source ∨ shown = " ^ " ++ first ∨
        ∃ line ∈ rest, shown = "   " ++ line) → P (" " ++ field ++ " |" ++ shown)) :
    ∀ line ∈ gutterLines number source first rest, P line := by
  simp only [gutterLines, List.forall_mem_cons, List.forall_mem_map]
  refine ⟨?_, ?_, ?_, fun line hline => ?_⟩
  · simpa only [String.append_empty] using h _ "" (.inr rfl) (.inl rfl)
  · have hbar : " | " = " |" ++ " " := by decide
    rw [hbar, ← String.append_assoc, String.append_assoc]
    exact h _ _ (.inl rfl) (.inr (.inl rfl))
  · rw [String.append_assoc]
    exact h _ _ (.inr rfl) (.inr (.inr (.inl rfl)))
  · rw [String.append_assoc]
    exact h _ _ (.inr rfl) (.inr (.inr (.inr ⟨line, hline, rfl⟩)))

theorem length_spaces (n : Nat) : (Text.spaces n).length = n := by
  rw [Text.spaces, String.length_ofList, List.length_replicate]

theorem idxOf?_append_cons {c : Char} {front : List Char} (h : c ∉ front) (tail : List Char) :
    (front ++ c :: tail).idxOf? c = some front.length := by
  induction front with
  | nil => simp [List.idxOf?_cons]
  | cons d front ih =>
    obtain ⟨hd, hfront⟩ := List.ne_and_not_mem_of_not_mem_cons h
    rw [List.cons_append, List.idxOf?_cons, if_neg (by simpa using Ne.symm hd), ih hfront]
    rfl

/-- **The bars of a gutter stand below each other**, two columns behind those of the number. -/
theorem idxOf?_bar (hnumber : '|' ∉ number.toList) :
    ∀ line ∈ gutterLines number source first rest,
      line.toList.idxOf? '|' = some (number.length + 2) := by
  refine forall_mem_gutterLines fun field shown hfield _ => ?_
  have hfree : '|' ∉ field.toList := by
    rcases hfield with rfl | rfl
    · exact hnumber
    · rw [Text.spaces, String.toList_ofList]
      exact fun hmem => absurd (List.eq_of_mem_replicate hmem) (by decide)
  have hlength : field.toList.length = number.length := by
    rw [String.length_toList]
    rcases hfield with rfl | rfl
    · rfl
    · exact length_spaces _
  have hfront : '|' ∉ ' ' :: (field.toList ++ [' ']) := by simpa using hfree
  have hline : (" " ++ field ++ " |" ++ shown).toList =
      ' ' :: (field.toList ++ [' ']) ++ '|' :: shown.toList := by
    simp [String.toList_append]
  rw [hline, idxOf?_append_cons hfront]
  simp [hlength]

/-- The lines behind a gutter have no line feeds, if what they show has none. -/
theorem no_lineFeed_of_mem_gutterLines (hnumber : '\n' ∉ number.toList)
    (hsource : '\n' ∉ source.toList) (hfirst : '\n' ∉ first.toList)
    (hrest : ∀ line ∈ rest, '\n' ∉ line.toList) :
    ∀ line ∈ gutterLines number source first rest, '\n' ∉ line.toList := by
  refine forall_mem_gutterLines fun field shown hfield hshown => ?_
  have hfield : '\n' ∉ field.toList := by
    rcases hfield with rfl | rfl
    · exact hnumber
    · exact fun hmem => (Text.onOneLine_spaces _ _ hmem).1 rfl
  have hshown : '\n' ∉ shown.toList := by
    rcases hshown with rfl | rfl | rfl | ⟨line, hline, rfl⟩
    · exact List.not_mem_nil
    · simpa [String.toList_append] using hsource
    · simpa [String.toList_append] using hfirst
    · simpa [String.toList_append] using hrest line hline
  simp [String.toList_append, hfield, hshown]

end Gutters

/-- **A report is read line by line**: the lines behind the gutter, an empty line and the place. -/
theorem pieces_report {failures : DecodeFailures} {first : String} {rest : List String}
    (hsource : '\n' ∉ (Text.trim (failures.annotations.source.getD "")).toList)
    (hlines : Text.lines failures.text = first :: rest) :
    Text.pieces failures.report =
      gutterLines (toString (failures.annotations.line.getD 0).toNat)
          (Text.trim (failures.annotations.source.getD "")) first rest ++
        "" :: Text.pieces failures.annotations.place := by
  have hfree : ∀ line ∈ first :: rest, '\n' ∉ line.toList := by
    rw [← hlines]
    exact fun line => Text.no_lineFeed_of_mem_lines
  obtain ⟨hfirst, hrest⟩ := List.forall_mem_cons.mp hfree
  have hnumber : '\n' ∉ (toString (failures.annotations.line.getD 0).toNat).toList :=
    fun hmem => (Text.onOneLine_toString _ _ hmem).1 rfl
  have hgutter := no_lineFeed_of_mem_gutterLines hnumber hsource hfirst hrest
  have hempty : '\n' ∉ "".toList := List.not_mem_nil
  have hcut := Text.pieces_intercalate_concat
    (List.forall_mem_append.mpr ⟨hgutter, List.forall_mem_singleton.mpr hempty⟩)
    failures.annotations.place
  rw [Failures.report, hlines]
  rw [List.append_assoc, List.append_assoc] at hcut
  exact hcut

theorem Failures.text_ne_empty (failures : DecodeFailures) : failures.text ≠ "" := by
  rw [Failures.text_eq, Text.intercalate_cons_eq_join]
  intro hempty
  obtain ⟨hheader, -⟩ := String.append_eq_empty_iff.mp hempty
  obtain ⟨-, hquote⟩ := String.append_eq_empty_iff.mp hheader
  exact absurd hquote (by decide)

/-- **Reports keep every failure and the tree of failures.**  A report whose line of the stylesheet
has no line feed is made of an empty margin, that line behind its number, the lines of the text of
the failures in order behind the margin, the first of them marked, an empty line and the place; all
bars stand two columns behind the digits of the number.  Where no string of the failures has a line
end, the lines of their text are the preorder of their tree: a group that is `k` groups deep has its
header at `4 * k`, each attempt at `4 * k + 2`, and what is said about its error at `4 * (k + 1)`.
So the number of attempts at every depth, and the whole tree of attempts, are read off the
indentations. -/
theorem failure_reports (failures : DecodeFailures) :
    let annotations := failures.annotations
    let number := toString (annotations.line.getD 0).toNat
    let source := Text.trim (annotations.source.getD "")
    ('\n' ∉ source.toList →
      ∃ first rest, Text.lines failures.text = first :: rest ∧
        Text.pieces failures.report =
          gutterLines number source first rest ++
            "" :: Text.pieces ("in " ++ annotations.moduleName.getD "" ++ " (" ++
              annotations.file.getD "" ++ ":" ++ number ++ ")") ∧
        ∀ line ∈ gutterLines number source first rest,
          line.toList.idxOf? '|' = some (number.length + 2)) ∧
    ((∀ name ∈ failures.names, Text.OnOneLine name) →
      Text.lines failures.text = failures.preorder.map shownLine ∧
      (Text.lines failures.text).map Text.indentation = failures.preorder.map Prod.fst ∧
      (∀ k, (Text.lines failures.text).countP (fun line => Text.indentation line = 4 * k + 2) =
        (Nesting.attemptsAt k failures.nesting).length) ∧
      Nesting.ofText failures.text = failures.nesting) := by
  intro annotations number source
  constructor
  · intro hsource
    obtain ⟨first, rest, hlines⟩ :=
      List.exists_cons_of_ne_nil (Text.lines_ne_nil failures.text_ne_empty)
    have hnumber : '|' ∉ number.toList := fun hmem =>
      absurd (Text.isDigit_of_mem_toString hmem) (by decide)
    exact ⟨first, rest, hlines, pieces_report hsource hlines, idxOf?_bar hnumber⟩
  · intro hnames
    exact ⟨Failures.lines_text hnames, Failures.indentations_text hnames,
      Failures.countP_lines_text hnames, Nesting.ofText_text hnames⟩

/-- A paint whose color is neither of two cases, on line 120 of a stylesheet. -/
theorem failure_reports_paint :
    let red : Attempt DecodeError := ⟨".rgb(_:)", .missingArgument "_"⟩
    let case : Attempt DecodeError := ⟨"Color", .unknownCase "nope" ["red", "blue"]⟩
    let failures : DecodeFailures :=
      ⟨"Paint", [⟨".solid(_:)", .nested "_" ⟨"Color", [red, case], .empty⟩⟩,
        ⟨"Paint", .missingCaseName⟩],
        ⟨some "app.ex", some 120, none, some "App", some "  solid(.nope) "⟩⟩
    '\n' ∉ (Text.trim (failures.annotations.source.getD "")).toList ∧
      (∀ name ∈ failures.names, Text.OnOneLine name) ∧
      Text.pieces failures.report =
        ["     |", " 120 | solid(.nope)", "     | ^ no matching shape for `Paint`",
          "     |     `.solid(_:)` failed:", "     |       argument `_`:",
          "     |       no matching shape for `Color`", "     |         `.rgb(_:)` failed:",
          "     |           missing required argument `_`", "     |         `Color` failed:",
          "     |           no case named `nope`, expected one of `red`, `blue`",
          "     |     `Paint` failed:", "     |       expected a case name", "",
          "in App (app.ex:120)"] ∧
      (Text.lines failures.text).countP (fun line => Text.indentation line = 4 * 1 + 2) = 2 ∧
      Nesting.ofText failures.text = [.group [.leaf, .leaf], .leaf] := by
  intro red case failures
  obtain ⟨hreport, htext⟩ := failure_reports failures
  have hsource : '\n' ∉ (Text.trim (failures.annotations.source.getD "")).toList := by
    decide +kernel
  have hnames : ∀ name ∈ failures.names, Text.OnOneLine name := by decide +kernel
  obtain ⟨first, rest, hlines, hpieces, -⟩ := hreport hsource
  obtain ⟨hpreorder, -, hcount, htree⟩ := htext hnames
  refine ⟨hsource, hnames, ?_, (hcount 1).trans rfl, htree⟩
  rw [hpreorder] at hlines
  cases hlines
  rw [hpieces]
  decide +kernel

end DeferredStyle
