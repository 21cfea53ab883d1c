import Brew.Text.Ranges

/-!
# Blanks and white space

Two notions of empty space meet in this project.  Between two lexemes a source may hold **blanks**,
which are four ASCII characters.  A line typed at the prompt is first freed of **white space** at
both ends, and white space is the larger class that the Unicode standard calls `White_Space`.

## Main definitions

* `isBlank`: space, tab, carriage return and line feed
* `isWhiteSpace`: the property `White_Space`
* `trim`: a text without the white space at its two ends

## Main results

* `isWhiteSpace_of_isBlank`: every blank is white space, so trimming never leaves a blank at an end
-/

namespace Brew.Text

/-- The four characters that may stand between two lexemes. -/
def isBlank (c : Char) : Bool :=
  c = ' ' || c = '\t' || c = '\r' || c = '\n'

/-- Code points with the property `White_Space`. -/
def whiteSpaceRanges : List (Nat × Nat) :=
  [(0x9, 0xd), (0x20, 0x20), (0x85, 0x85), (0xa0, 0xa0), (0x1680, 0x1680), (0x2000, 0x200a),
   (0x2028, 0x2029), (0x202f, 0x202f), (0x205f, 0x205f), (0x3000, 0x3000)]

/-- Whether a character has the property `White_Space`. -/
def isWhiteSpace (c : Char) : Bool := inRanges whiteSpaceRanges c.toNat

theorem isBlank_iff {c : Char} : isBlank c ↔ c = ' ' ∨ c = '\t' ∨ c = '\r' ∨ c = '\n' := by
  simp [isBlank, or_assoc]

/-- Blanks are white space. -/
theorem isWhiteSpace_of_isBlank {c : Char} (h : isBlank c) : isWhiteSpace c := by
  rcases isBlank_iff.mp h with rfl | rfl | rfl | rfl <;> decide

/-- The characters without the white space at the end. -/
def trimEnd (cs : List Char) : List Char := (cs.reverse.dropWhile isWhiteSpace).reverse

/-- A text without the white space at its two ends. -/
def trim (s : String) : String := String.ofList (trimEnd (s.toList.dropWhile isWhiteSpace))

@[simp]
theorem toList_trim (s : String) : (trim s).toList = trimEnd (s.toList.dropWhile isWhiteSpace) := by
  simp [trim]

end Brew.Text
