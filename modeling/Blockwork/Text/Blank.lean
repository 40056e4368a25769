/-!
# `Blockwork.Text.Blank`: white space and trimming

Every part of the program that skips, trims or counts white space means the same set of
characters: the twenty-five code points with the Unicode property `White_Space`.

## Contents
- `isBlank`, the set.
- `trimStart`, `trimEnd`, `trim` on character lists and on texts.
- `words`, the maximal runs of characters that are not blank.
-/

namespace Blockwork.Text

/-! ## The set -/

/-- The characters with the property `White_Space`. -/
def isBlank (c : Char) : Bool :=
  let n := c.toNat
  (0x09 ≤ n && n ≤ 0x0D) || n == 0x20 || n == 0x85 || n == 0xA0 || n == 0x1680 ||
    (0x2000 ≤ n && n ≤ 0x200A) || n == 0x2028 || n == 0x2029 || n == 0x202F || n == 0x205F ||
    n == 0x3000

example : isBlank '\u0085' ∧ isBlank '\u3000' ∧ ¬ isBlank '\u200B' ∧ ¬ isBlank '\uFEFF' := by
  decide

/-! ## Trimming -/

/-- `cs` without its leading blanks. -/
def dropBlanks (cs : List Char) : List Char :=
  cs.dropWhile isBlank

/-- `cs` without its trailing blanks. -/
def dropBlanksEnd (cs : List Char) : List Char :=
  (dropBlanks cs.reverse).reverse

/-- `cs` without the blanks at both ends. -/
def trimChars (cs : List Char) : List Char :=
  dropBlanksEnd (dropBlanks cs)

/-- `s` without the blanks at both ends. -/
def trim (s : String) : String :=
  String.ofList (trimChars s.toList)

theorem toList_trim (s : String) : (trim s).toList = trimChars s.toList := by
  simp [trim]

/-! ## Words -/

/-- The maximal runs of characters that are not blank, `current` being the run read so far,
last character first. -/
def wordsFrom (current : List Char) : List Char → List (List Char)
  | [] => if current.isEmpty then [] else [current.reverse]
  | c :: cs =>
    if isBlank c then
      if current.isEmpty then wordsFrom [] cs else current.reverse :: wordsFrom [] cs
    else wordsFrom (c :: current) cs

/-- The maximal runs of characters of `s` that are not blank, in order. -/
def words (s : String) : List String :=
  (wordsFrom [] s.toList).map String.ofList

end Blockwork.Text
