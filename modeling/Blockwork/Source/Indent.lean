import Blockwork.Text.Blank
import Blockwork.Text.Line

/-!
# `Blockwork.Source.Indent`: the lines of a source and their indentation

Only the lines that are not blank count. The blanks at the beginning of a line say how far it is
indented, and a tabulator takes four columns.

## Contents
- `indentWidth`, the columns of the blanks at the beginning of a line.
- `Line`, a line with its number, its row and its indentation; `Line.ofSource`.
-/

namespace Blockwork.Source

/-! ## Lines -/

/-- The columns that a tabulator takes. -/
def tabWidth : Nat := 4

/-- The columns that a blank takes. -/
def blankWidth (c : Char) : Nat :=
  if c = '\t' then tabWidth else 1

/-- The width of the blanks at the beginning of a line. -/
def indentWidth (line : List Char) : Nat :=
  (line.takeWhile Text.isBlank).foldr (fun c width => blankWidth c + width) 0

example : indentWidth ['\t', ' ', 'x', ' '] = 5 := by decide

/-- A line that is not blank. -/
structure Line where
  /-- Its number among all lines, counted from one. -/
  number : Nat
  /-- Its number among the lines that are not blank, counted from one. -/
  row : Nat
  indent : Nat
  /-- The line without the blanks at its ends. -/
  text : List Char
  deriving DecidableEq, Repr

/-- The lines that are not blank among some lines, the first of which has number `number`; the first
that is not blank has row `row`. -/
def linesFrom (number row : Nat) : List (List Char) → List Line
  | [] => []
  | line :: lines =>
    let text := Text.trimChars line
    if text.isEmpty then linesFrom (number + 1) row lines
    else { number, row, indent := indentWidth line, text } :: linesFrom (number + 1) (row + 1) lines

/-- The lines of a source that are not blank, in order. -/
def Line.ofSource (source : String) : List Line :=
  linesFrom 1 1 (Text.splitLines source.toList)

end Blockwork.Source
