/-!
# `Blockwork.Files.Path`: the text of a path

A path is a text whose parts are separated by slashes. Empty parts never count. A dot stands for the
directory itself, two dots for the one above it.

## Contents
- `parts`, `isAbsolute`, `endsWithSlash`.
- `components`, the parts without dots that change nothing; `parentOf` and `fileName?`.
- `splitName`, a file name's stem and extension; `hasExtension`.
-/

namespace Blockwork.Path

/-- The pieces of `cs` between slashes, `current` being the piece read so far, last character
first. -/
def piecesFrom (current : List Char) : List Char → List (List Char)
  | [] => [current.reverse]
  | c :: cs =>
    if c = '/' then current.reverse :: piecesFrom [] cs else piecesFrom (c :: current) cs

/-- The parts of a path that are not empty. -/
def parts (path : String) : List String :=
  ((piecesFrom [] path.toList).filter (!·.isEmpty)).map String.ofList

/-- Whether a path begins at the root. -/
def isAbsolute (path : String) : Bool :=
  path.toList.head? == some '/'

/-- Whether a path says by a final slash that it means a directory. -/
def endsWithSlash (path : String) : Bool :=
  path.toList.getLast? == some '/'

/-- The part for a directory itself, and the part for the directory above. -/
def here : String := "."
def above : String := ".."

/-- The parts without those that stand for the directory itself, but for one at the beginning. -/
def components (path : String) : List String :=
  match parts path with
  | [] => []
  | first :: rest =>
    (if first = here ∧ isAbsolute path then [] else [first]) ++ rest.filter (· != here)

/-- The components of the directory that holds what the path names. -/
def parentOf (path : String) : List String :=
  (components path).dropLast

/-- The last component, if it is a name. -/
def fileName? (path : String) : Option String :=
  ((components path).getLast?).filter fun name => name != here && name != above

/-- The stem and the extension of a file name: what stands before and after its last dot. A dot at
the beginning does not count. -/
def splitName (name : String) : String × Option String :=
  let reversed := name.toList.reverse
  match reversed.dropWhile (· != '.') with
  | [] => (name, none)
  | _ :: [] => (name, none)
  | _ :: stem =>
    (String.ofList stem.reverse, some (String.ofList (reversed.takeWhile (· != '.')).reverse))

/-- Whether a path names a file with an extension, which is given in lower case. -/
def hasExtension (extension : String) (path : String) : Bool :=
  match (fileName? path).bind fun name => (splitName name).2 with
  | some e => e.toLower == extension
  | none => false

/-- The stem of the file that a path names, nothing if it names none. -/
def stemOf (path : String) : String :=
  ((fileName? path).map fun name => (splitName name).1).getD ""

example : splitName "a.b.py" = ("a.b", some "py") ∧ splitName ".py" = (".py", none) := by
  decide +kernel

end Blockwork.Path
