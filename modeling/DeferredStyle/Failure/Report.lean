import DeferredStyle.Failure.Decode
import DeferredStyle.Text.Blank

/-!
# Failure reports

A report shows the failures of a node behind a gutter, below the line of the stylesheet that the
node was written on, and ends with the place of that line.

* `Failures.report` — the report.
-/

set_option autoImplicit false

namespace DeferredStyle

/-- A gutter as wide as a line number. -/
def gutter (lineNumber : String) : String :=
  " " ++ String.ofList (List.replicate lineNumber.length ' ') ++ " |"

/-- Message lines behind a gutter; the first one is marked. -/
def messageLines (gutter : String) : List String → List String
  | [] => []
  | first :: rest => (gutter ++ " ^ " ++ first) :: rest.map fun line => gutter ++ "   " ++ line

/-- Where a node was written. -/
def Annotations.place (a : Annotations) : String :=
  "in " ++ a.moduleName.getD "" ++ " (" ++ a.file.getD "" ++ ":" ++
    toString (a.line.getD 0).toNat ++ ")"

/-- The failures of a node, pointing back at the line it was written on. -/
def Failures.report (failures : DecodeFailures) : String :=
  let annotations := failures.annotations
  let lineNumber := toString (annotations.line.getD 0).toNat
  let gutter := gutter lineNumber
  let source := " " ++ lineNumber ++ " | " ++ Text.trim (annotations.source.getD "")
  String.intercalate "\n"
    (gutter :: source :: messageLines gutter (Text.lines failures.text) ++ ["", annotations.place])

end DeferredStyle
