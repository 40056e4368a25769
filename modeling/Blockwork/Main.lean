import Blockwork.CommandLine.Run
import Std.Time.DateTime.Timestamp

/-!
# `Blockwork.Main`: the command line program

What the program does is `CommandLine.run` on a disk. Here the disk is filled with what stands at
the paths on the command line, and what the run changed is written out.

## Contents
- `Shell.usage`, the help text; `Shell.explain`, the words for a bad command line.
- `Shell.observe`, what stands at a place; `Shell.diskFor`, what a run can see.
- `Shell.commit`, writing what changed.
- `main`.
-/

namespace Blockwork.Shell

/-! ## Words -/

/-- The help text. -/
def usage : String :=
  "Generate Python source from a block-tree project (or turn Python into blocks).\n\n" ++
    "Usage: blockwork [OPTIONS] <INPUT> [OUTPUT]\n\n" ++
    "Arguments:\n" ++
    "  <INPUT>   Project JSON, .pyblocks bundle, or .py source\n" ++
    "  [OUTPUT]  Write generated code here instead of stdout\n\n" ++
    "Options:\n" ++
    "      --from-python            Treat INPUT as Python source regardless of its extension\n" ++
    "      --apply <COMMANDS>       Apply a JSON array of edit commands before generating\n" ++
    "      --emit-project <PATH>    Write the (converted or edited) project JSON to this path\n" ++
    "      --bundle                 Write OUTPUT as a .pyblocks bundle instead of plain Python\n" ++
    "      --stats                  Print code and forest statistics\n" ++
    "      --indent-width <WIDTH>   Spaces per nesting level in generated code [default: 4]\n" ++
    "  -h, --help                   Print help\n"

/-- What is said about a bad command line. -/
def explain : UsageError → String
  | .unknownArgument argument => "unexpected argument '" ++ argument ++ "' found"
  | .missingInput => "the argument <INPUT> is required"
  | .missingValue => "a value is required but none was given"
  | .badNumber value => "'" ++ value ++ "' is no number of columns"
  | .repeated => "an option cannot be given twice"
  | .unexpectedValue => "a value was given to an option that takes none"
  | .help => usage

/-- What is said about a run that stopped early. -/
def report (e : CommandLine.Failure) : String :=
  "Error: " ++ e.message ++
    match e.cause? with
    | some cause => "\n\nCaused by:\n    " ++ cause.message
    | none => ""

/-! ## The disk -/

/-- What stands at a place. -/
def observe (place : Place) : IO (Option Node) := do
  let path := Disk.nameOf place
  try
    let bytes ← IO.FS.readBinFile path
    return some (.file bytes.data.toList)
  catch _ =>
    try
      if ← (← IO.FS.realPath path).isDir then return some .directory else return none
    catch _ => return none

/-- The disk with what stands on the way that some parts lead from a place. -/
def observeWay (d : Disk) (place : Place) : List String → IO Disk
  | [] => return d
  | part :: parts => do
    match d.enter place part with
    | .error _ => return d
    | .ok next =>
      match d.node? next with
      | some _ => observeWay d next parts
      | none =>
        match ← observe next with
        | some node => observeWay (d.put next node) next parts
        | none => return d

/-- The disk with what stands on the way of a path. -/
def observePath (d : Disk) (path : String) : IO Disk :=
  observeWay d (d.startOf path) (Path.parts path)

/-- What a run can see. -/
def diskFor (a : Arguments) : IO Disk := do
  let current := Path.parts (← IO.currentDir).toString
  let d ← observeWay { nodes := [], current } [] current
  ([some a.input, a.apply, a.emitProject, a.output].filterMap id).foldlM observePath d

/-- Writes what changed. -/
def commit (before after : Disk) : IO Unit :=
  after.nodes.reverse.forM fun (place, node) => do
    if before.node? place ≠ some node then
      match node with
      | .directory => IO.FS.createDirAll (Disk.nameOf place)
      | .file bytes => IO.FS.writeBinFile (Disk.nameOf place) ⟨bytes.toArray⟩

/-- The current time. -/
def now : IO Timestamp := do
  let t ← Std.Time.Timestamp.now
  return Timestamp.sinceEpoch t.val.second.val.toNat t.val.nano.val.toNat

/-- Runs the program. -/
def perform (a : Arguments) : IO UInt32 := do
  let disk ← diskFor a
  let (result, session) := CommandLine.run (← now) disk a
  (session.log.filter (·.severity = .warn)).forM fun entry => IO.eprintln ("[WARN] " ++ entry.message)
  session.notes.forM fun line => IO.eprintln line
  IO.print session.output
  commit disk session.disk
  match result with
  | .ok () => return 0
  | .error e =>
    IO.eprintln (report e)
    return 1

end Blockwork.Shell

open Blockwork in
/-- The program. -/
def main (arguments : List String) : IO UInt32 :=
  match Arguments.parse arguments with
  | .ok a => Shell.perform a
  | .error .help => do
    IO.print Shell.usage
    return 0
  | .error e => do
    IO.eprintln ("error: " ++ Shell.explain e)
    return 2
