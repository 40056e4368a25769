import Blockwork.Forest.Basic
import Blockwork.Text.Blank
import Blockwork.Text.Line

/-!
# `Blockwork.Source.Stats`: counts and warnings

Counts over the lines of a source and over the blocks of a forest, and cheap warnings about a
source: an endless loop without a nearby `break`, and a division by a literal zero. Blank lines
neither count nor have a number.

## Contents
- `CodeStats` and `codeStats`.
- `ForestStats` and `Forest.stats`.
- `solidLines`, `issuesAt` and `potentialIssues`.
-/

namespace Blockwork

namespace Source

/-- The trimmed lines of a source that are not blank. -/
def statements (code : String) : List (List Char) :=
  ((Text.splitLines code.toList).map Text.trimChars).filter (!·.isEmpty)

/-! ## Counts over a source -/

/-- What is counted in a source. -/
structure CodeStats where
  totalLines : Nat
  functions : Nat
  classes : Nat
  loops : Nat
  conditionals : Nat
  imports : Nat
  deriving DecidableEq, Repr

/-- Whether a statement begins with one of some words. -/
def opensWith (leads : List String) (statement : List Char) : Bool :=
  leads.any fun lead => Text.startsWith lead.toList statement

/-- The counts of a source. -/
def codeStats (code : String) : CodeStats :=
  let all := statements code
  { totalLines := all.length
    functions := all.countP (opensWith ["def "])
    classes := all.countP (opensWith ["class "])
    loops := all.countP (opensWith ["for ", "while "])
    conditionals := all.countP (opensWith ["if ", "elif "])
    imports := all.countP (opensWith ["import ", "from "]) }

/-! ## Warnings -/

/-- The lines of a source that are not blank, as they stand. -/
def solidLines (code : String) : List (List Char) :=
  (Text.splitLines code.toList).filter fun line => !(Text.trimChars line).isEmpty

/-- How many lines after an endless loop may hold its `break`. -/
def breakLookahead : Nat := 9

/-- The warnings about `line`, which stands among `lines` after `index` others. -/
def issuesAt (lines : List (List Char)) (index : Nat) (line : List Char) : List String :=
  let trimmed := Text.trimChars line
  let nearby := (lines.drop (index + 1)).take breakLookahead
  let endless := Text.startsWith "while True:".toList trimmed &&
    !nearby.any (Text.contains "break".toList)
  let divides := Text.contains "/ 0".toList trimmed || Text.contains "/0".toList trimmed
  let warn (text : String) := "Line " ++ toString (index + 1) ++ ": " ++ text
  (if endless then [warn "Potential infinite loop detected"] else []) ++
    (if divides then [warn "Division by zero detected"] else [])

/-- The warnings about lines that are not blank, in order. -/
def issuesOf (lines : List (List Char)) : List String :=
  lines.zipIdx.flatMap fun (line, index) => issuesAt lines index line

/-- The warnings about a source. -/
def potentialIssues (code : String) : List String :=
  issuesOf (solidLines code)

end Source

/-! ## Counts over a forest -/

/-- What is counted in a forest. -/
structure ForestStats where
  blocks : Nat
  topLevel : Nat
  maxDepth : Nat
  collapsed : Nat
  deriving DecidableEq, Repr

/-- The counts of a forest. -/
def Forest.stats (f : Forest) : ForestStats :=
  let visited := f.walk
  { blocks := visited.length
    topLevel := f.roots.length
    maxDepth := visited.foldl (fun deepest e => max deepest (e.1 + 1)) 0
    collapsed := visited.countP (·.2.collapsed) }

end Blockwork
