import DeferredStyle.Text.Split

/-!
# Blank characters

The characters with the Unicode property `White_Space`, and the two operations that depend on
them: trimming the ends of a text and cutting it into words.

* `isBlank` — membership in the twenty-five blank characters.
* `trim` — the text without the blank characters at its two ends.
* `words` — the maximal runs of characters that are not blank, in order.
* `wordLists_append_cons` — a blank separates: the words of `a ++ c :: b` are those of `a`
  followed by those of `b`.
-/

set_option autoImplicit false

namespace DeferredStyle.Text

/-- The code points with the property `White_Space`, as inclusive ranges in increasing order. -/
def blankRanges : List (Nat × Nat) :=
  [(0x9, 0xd), (0x20, 0x20), (0x85, 0x85), (0xa0, 0xa0), (0x1680, 0x1680), (0x2000, 0x200a),
    (0x2028, 0x2029), (0x202f, 0x202f), (0x205f, 0x205f), (0x3000, 0x3000)]

/-- Whether a character has the property `White_Space`. -/
def isBlank (c : Char) : Bool :=
  blankRanges.any fun (first, last) => first ≤ c.toNat && c.toNat ≤ last

/-- The characters left when the blank ones at both ends are dropped. -/
def trimChars (cs : List Char) : List Char :=
  ((cs.dropWhile isBlank).reverse.dropWhile isBlank).reverse

/-- The text without the blank characters at its ends. -/
def trim (text : String) : String :=
  String.ofList (trimChars text.toList)

/-- The pieces between blanks that are not empty. -/
def wordLists (cs : List Char) : List (List Char) :=
  (splitAt isBlank cs).filter fun piece => !piece.isEmpty

/-- The words of a text: its maximal runs of characters that are not blank. -/
def words (text : String) : List String :=
  (wordLists text.toList).map String.ofList

/-- A blank character separates words. -/
theorem wordLists_append_cons {c : Char} (hc : isBlank c = true) (a b : List Char) :
    wordLists (a ++ c :: b) = wordLists a ++ wordLists b := by
  simp [wordLists, splitAt_append_cons hc]

end DeferredStyle.Text
