import Blockwork.Files.Path

/-!
# `Blockwork.Files.Disk`: files and directories

A disk is a finite map from places to files and directories. A place is the list of names that leads
to it from the root. A path is followed part by part; every part but the last has to lead to a
directory.

## Contents
- `Node`, `Disk`, `Disk.node?`, `Disk.put`.
- `SystemError` with its `message`.
- `locate`, the place that a path names.
- `readFile`, `createDirectories`, `writeFile`, `replaceFile`.
-/

namespace Blockwork

/-! ## Disks -/

/-- What stands at a place. -/
inductive Node where
  | file (bytes : List UInt8)
  | directory
  deriving DecidableEq

/-- The names that lead to a place from the root. -/
abbrev Place := List String

/-- Files and directories, with the directory at which relative paths begin. -/
structure Disk where
  nodes : List (Place × Node)
  current : Place

namespace Disk

/-- What stands at a place; the root is always a directory. -/
def node? (d : Disk) (place : Place) : Option Node :=
  if place.isEmpty then some .directory
  else (d.nodes.find? (·.1 == place)).map Prod.snd

/-- The disk with something at a place. -/
def put (d : Disk) (place : Place) (node : Node) : Disk :=
  { d with nodes := (place, node) :: d.nodes.filter (·.1 != place) }

theorem node?_put (d : Disk) {place : Place} (node : Node) (h : place ≠ []) :
    (d.put place node).node? place = some node := by
  simp [node?, put, h]

end Disk

/-! ## Errors -/

/-- Why the system refuses an operation. -/
inductive SystemError where
  | noEntry | busy | alreadyExists | notDirectory | isDirectory
  deriving DecidableEq, Repr

namespace SystemError

/-- The system's number of an error. -/
def code : SystemError → Nat
  | noEntry => 2
  | busy => 16
  | alreadyExists => 17
  | notDirectory => 20
  | isDirectory => 21

/-- The system's words for an error. -/
def words : SystemError → String
  | noEntry => "No such file or directory"
  | busy => "Device or resource busy"
  | alreadyExists => "File exists"
  | notDirectory => "Not a directory"
  | isDirectory => "Is a directory"

/-- What is reported about an error. -/
def message (e : SystemError) : String :=
  e.words ++ " (os error " ++ toString e.code ++ ")"

end SystemError

namespace Disk

/-! ## Following paths -/

/-- The place one part further, which need not exist. -/
def enter (d : Disk) (place : Place) (part : String) : Except SystemError Place :=
  match d.node? place with
  | none => .error .noEntry
  | some (.file _) => .error .notDirectory
  | some .directory =>
    if part = Path.here then .ok place
    else if part = Path.above then .ok place.dropLast
    else .ok (place ++ [part])

/-- Where a path begins. -/
def startOf (d : Disk) (path : String) : Place :=
  if Path.isAbsolute path then [] else d.current

/-- The place that a path names, which need not exist. -/
def locate (d : Disk) (path : String) : Except SystemError Place :=
  (Path.parts path).foldlM d.enter (d.startOf path)

/-- What stands where a path leads; behind a final slash only a directory can stand. -/
def lookup (d : Disk) (path : String) : Except SystemError Node := do
  match d.node? (← d.locate path) with
  | none => throw .noEntry
  | some .directory => return .directory
  | some (.file bytes) =>
    if Path.endsWithSlash path then throw .notDirectory else return .file bytes

/-- Whether a path leads to a file. -/
def isFile (d : Disk) (path : String) : Bool :=
  match d.lookup path with
  | .ok (.file _) => true
  | _ => false

/-- The text of a place. -/
def nameOf (place : Place) : String :=
  "/" ++ "/".intercalate place

/-! ## Reading and writing -/

/-- The bytes of a file. -/
def readFile (d : Disk) (path : String) : Except SystemError (List UInt8) := do
  match ← d.lookup path with
  | .file bytes => return bytes
  | .directory => throw .isDirectory

/-- The disk with all directories on a way that begins at `place`. A file on the way is an error, and
another one at its end. -/
def createDirectoriesFrom (d : Disk) (place : Place) : List String → Except SystemError Disk
  | [] => .ok d
  | part :: parts => do
    let next ← d.enter place part
    match d.node? next with
    | some .directory => createDirectoriesFrom d next parts
    | some (.file _) => throw (if parts.isEmpty then .alreadyExists else .notDirectory)
    | none => createDirectoriesFrom (d.put next .directory) next parts

/-- The disk with the directory that is to hold what a path names. -/
def createParent (d : Disk) (path : String) : Except SystemError Disk :=
  d.createDirectoriesFrom (d.startOf path) (Path.parentOf path)

/-- Whether the last part of a path is no name. -/
def endsWithDots (path : String) : Bool :=
  match (Path.parts path).getLast? with
  | some part => part == Path.here || part == Path.above
  | none => true

/-- The disk with a file written in place. -/
def writeFile (d : Disk) (path : String) (bytes : List UInt8) : Except SystemError Disk := do
  let place ← d.locate path
  if Path.endsWithSlash path || endsWithDots path then throw .isDirectory
  match d.node? place with
  | some .directory => throw .isDirectory
  | _ => return d.put place (.file bytes)

/-- The disk with a complete file moved to where a path leads, in place of what stood there. -/
def replaceFile (d : Disk) (path : String) (bytes : List UInt8) : Except SystemError Disk := do
  let place ← d.locate path
  if endsWithDots path then throw .busy
  if Path.endsWithSlash path then throw .notDirectory
  match d.node? place with
  | some .directory => throw .isDirectory
  | _ => return d.put place (.file bytes)

end Disk

end Blockwork
