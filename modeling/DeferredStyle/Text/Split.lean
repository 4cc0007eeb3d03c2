/-!
# Cutting text at separators

`splitAt p cs` cuts a character list at every character that satisfies `p` and drops the
separators.  A separator at either end, or two in a row, leave an empty piece, so `n` separators
always give `n + 1` pieces.

* `splitAt_append_cons` — a separator cuts: the pieces of `a ++ c :: b` are those of `a` and then
  those of `b`.
* `splitAt_of_none` — text without a separator is its own single piece.
* `lines` — the lines of a text, without their ends.
-/

set_option autoImplicit false

namespace DeferredStyle.Text

/-- The pieces between the characters that satisfy `p`. -/
def splitAt (p : Char → Bool) : List Char → List (List Char)
  | [] => [[]]
  | c :: cs =>
    if p c then [] :: splitAt p cs
    else match splitAt p cs with
      | [] => [[c]]
      | piece :: pieces => (c :: piece) :: pieces

/-- There is always at least one piece. -/
theorem splitAt_ne_nil (p : Char → Bool) (cs : List Char) : splitAt p cs ≠ [] := by
  cases cs with
  | nil => simp [splitAt]
  | cons c cs =>
    unfold splitAt
    split
    · simp
    · split <;> simp

/-- A separator cuts the text in two, and each side is cut on its own. -/
theorem splitAt_append_cons {p : Char → Bool} {c : Char} (hc : p c = true) (a b : List Char) :
    splitAt p (a ++ c :: b) = splitAt p a ++ splitAt p b := by
  induction a with
  | nil => simp [splitAt, hc]
  | cons d a ih =>
    by_cases hd : p d = true
    · simp [splitAt, hd, ih]
    · cases ha : splitAt p a with
      | nil => exact absurd ha (splitAt_ne_nil p a)
      | cons piece pieces => simp [splitAt, hd, ih, ha]

/-- Text without a separator is a single piece. -/
theorem splitAt_of_none {p : Char → Bool} {cs : List Char} (h : ∀ c ∈ cs, p c = false) :
    splitAt p cs = [cs] := by
  induction cs with
  | nil => rfl
  | cons c cs ih =>
    have hcs := ih fun d hd => h d (List.mem_cons_of_mem c hd)
    simp [splitAt, h c List.mem_cons_self, hcs]

/-- The first `sep` and what stands on its two sides, if there is one. -/
def cutOnce (sep : Char) : List Char → Option (List Char × List Char)
  | [] => none
  | c :: cs =>
    if c = sep then some ([], cs)
    else (cutOnce sep cs).map fun (before, after) => (c :: before, after)

/-! ## Lines -/

/-- A carriage return at the end of a piece belongs to the line feed that followed it. -/
def dropFinalReturn (line : List Char) : List Char :=
  match line.getLast? with
  | some '\r' => line.dropLast
  | _ => line

/-- What stands after the last line feed is a line of its own unless it is empty; every other
piece was ended by a line feed and gives up the carriage return before it. -/
def linesOfPieces : List (List Char) → List (List Char)
  | [] => []
  | [last] => if last.isEmpty then [] else [last]
  | piece :: next :: rest => dropFinalReturn piece :: linesOfPieces (next :: rest)

/-- The lines of a text.  A line ends at `\n` or `\r\n`, and a final line end starts no new line. -/
def lines (text : String) : List String :=
  (linesOfPieces (splitAt (· == '\n') text.toList)).map String.ofList

end DeferredStyle.Text
