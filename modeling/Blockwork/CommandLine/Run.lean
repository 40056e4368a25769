import Blockwork.CommandLine.Arguments
import Blockwork.CommandLine.Failure
import Blockwork.CommandLine.Progress
import Blockwork.Source.Convert
import Blockwork.Source.Stats
import Blockwork.Workspace

/-!
# `Blockwork.CommandLine.Run`: one run of the program

A run loads a project, applies commands to it, generates its source, saves it and writes the source
or a bundle, as far as its arguments ask for that. It changes the disk, and says things on two
channels and in a log.

## Contents
- `Session`, what a run has done so far, and `Run`.
- `loadProject`, the input as a project; `generateText`, the source of a project in a text.
- `applyCommands`, `saveProject`, `writeBundle`, `writeSource`.
- `statistics`, the lines of statistics.
- `program`, the stages, and `run`.
-/

namespace Blockwork.CommandLine

/-! ## Sessions -/

/-- What a run has done so far. -/
structure Session where
  disk : Disk
  /-- What was printed. -/
  output : String := ""
  /-- The lines for the user. -/
  notes : List String := []
  log : List LogEntry := []
  /-- How many stages have begun. -/
  stage : Nat := 0

/-- A step of a run. -/
abbrev Run := ExceptT Failure (StateM Session)

/-- Prints a text. -/
def print (text : String) : Run Unit :=
  modify fun s => { s with output := s.output ++ text }

/-- Tells the user a line. -/
def note (line : String) : Run Unit :=
  modify fun s => { s with notes := s.notes ++ [line] }

/-- Adds to the log. -/
def report (entries : List LogEntry) : Run Unit :=
  modify fun s => { s with log := s.log ++ entries }

/-- Announces the next of `total` stages. -/
def announce (total : Nat) (label : String) : Run Unit := do
  modify fun s => { s with stage := s.stage + 1 }
  note (progressLine (← get).stage total label)

/-- Changes the disk. -/
def change (failure : SystemError → Failure) (f : Disk → Except SystemError Disk) : Run Unit := do
  match f (← get).disk with
  | .ok disk => modify fun s => { s with disk }
  | .error e => throw (failure e)

/-! ## Loading -/

/-- The text of a file. -/
def readText (d : Disk) (path : String) : Except FileError String := do
  let bytes ← (d.readFile path).mapError .system
  (Utf8.decode? bytes).elim (.error .notText) .ok

/-- A source as a project with the name of its file. -/
def convertSource (now : Timestamp) (path source : String) : Run Project := do
  let conversion := Conversion.ofSource source
  report conversion.log
  conversion.issues.forM fun issue =>
    note ("warning: line " ++ toString issue.line ++ ": " ++ issue.message)
  return Project.create now (Path.stemOf path) "" conversion.forest

/-- What is at a path as a project: source, bundle or project file, by its extension. -/
def loadProject (now : Timestamp) (path : String) (fromPython : Bool) : Run Project := do
  let disk := (← get).disk
  if fromPython || Path.hasExtension "py" path then
    match readText disk path with
    | .error e => throw (.cannotRead path e)
    | .ok source => convertSource now path source
  else if Path.hasExtension "pyblocks" path then
    match disk.readFile path with
    | .error e => throw (.cannotReadBundle path (.projectFile (.system e)))
    | .ok bytes =>
      match Bundle.read now bytes with
      | .error e => throw (.cannotReadBundle path (.bundle e))
      | .ok bundle => return bundle.project
  else
    match readText disk path with
    | .error e => throw (.cannotLoad path (.projectFile e))
    | .ok text =>
      match Project.parse now text with
      | .error e => throw (.cannotLoad path (.project e))
      | .ok project => return project

/-- The source of the project in a text. -/
def generateText (now : Timestamp) (options : Options) (text : String) :
    Except Project.LoadError String :=
  (Project.parse now text).map fun p => p.forest.generate options

/-- The full path of an input file. -/
def findInput (path : String) : Run String := do
  let disk := (← get).disk
  if disk.isFile path then
    match disk.locate path with
    | .ok place => return Disk.nameOf place
    | .error _ => throw (.inputNotFound path)
  else throw (.inputNotFound path)

/-! ## Editing -/

/-- The commands in a file. -/
def loadCommands (path : String) : Run (List Command) := do
  match readText (← get).disk path with
  | .error e => throw (.cannotRead path e)
  | .ok text =>
    match Command.parseList text with
    | .error e => throw (.notCommands path e)
    | .ok commands => return commands

/-- The project after the commands in a file. -/
def applyCommands (now : Timestamp) (path : String) (p : Project) : Run Project := do
  let commands ← loadCommands path
  match Workspace.ofForest p.forest with
  | .error violation => throw (.badForest violation)
  | .ok workspace =>
    let (workspace, changed, log) := workspace.applyAll commands
    report log
    note (toString changed ++ " of " ++ toString commands.length ++ " commands changed the forest.")
    return { p with forest := workspace.forest }.touch now

/-! ## Writing -/

/-- Saves a project. -/
def saveProject (path : String) (p : Project) : Run Unit := do
  change .cannotSave (·.createParent path)
  change .cannotSave (·.replaceFile path (Utf8.encode p.toText))
  report [⟨.info, "saved project '" ++ p.name ++ "' (" ++ toString p.forest.size ++
    " blocks) to " ++ path⟩]

/-- Writes a bundle. -/
def writeBundle (options : Options) (path : String) (p : Project) : Run Unit := do
  match (Bundle.ofProject options p).write? with
  | none => throw .tooLarge
  | some bytes =>
    change .cannotSave (·.createParent path)
    change .cannotSave (·.writeFile path bytes)
    report [⟨.info, "exported '" ++ p.name ++ "' to " ++ path⟩]

/-- Writes a source. -/
def writeSource (path source : String) : Run Unit :=
  change (.cannotWrite path) (·.writeFile path (Utf8.encode source))

/-! ## Statistics -/

/-- The lines of statistics. -/
def statistics (p : Project) (source : String) : List String :=
  let f := p.forest.stats
  let c := Source.codeStats source
  let listed (items : List (String × Nat)) : String :=
    ", ".intercalate (items.map fun (name, n) => name ++ ": " ++ toString n)
  ["-- " ++ p.name ++ " --",
    "blocks: " ++ toString f.blocks ++ " (" ++ toString f.topLevel ++ " top-level, " ++
      toString f.collapsed ++ " collapsed), max depth " ++ toString f.maxDepth,
    listed [("lines", c.totalLines), ("functions", c.functions), ("classes", c.classes),
      ("loops", c.loops), ("conditionals", c.conditionals), ("imports", c.imports)]] ++
    (Source.potentialIssues source).map ("warning: " ++ ·)

/-! ## The stages -/

/-- How many stages a run has. -/
def stageCount (a : Arguments) : Nat :=
  2 + a.apply.isSome.toNat + a.emitProject.isSome.toNat + a.output.isSome.toNat

/-- Whether the output is to be a bundle. -/
def wantsBundle (a : Arguments) (path : String) : Bool :=
  a.bundle || Path.hasExtension "pyblocks" path

/-- The options of the source. -/
def optionsOf (a : Arguments) : Options :=
  { indentWidth := a.indentWidth }

/-- Refuses arguments that make no sense together. -/
def checkArguments (a : Arguments) : Run Unit := do
  if a.bundle && a.output.isNone then throw .outputNeeded
  if a.indentWidth = 0 then throw .noWidth

/-- Loads the project and applies the commands. -/
def prepare (now : Timestamp) (a : Arguments) : Run Project := do
  announce (stageCount a) "Loading input"
  let project ← loadProject now (← findInput a.input) a.fromPython
  match a.apply with
  | none => return project
  | some path =>
    announce (stageCount a) "Applying edit commands"
    applyCommands now path project

/-- Writes the output. -/
def deliver (a : Arguments) (p : Project) (source : String) : Run Unit := do
  match a.output with
  | none => print source
  | some path =>
    if wantsBundle a path then
      announce (stageCount a) "Writing .pyblocks bundle"
      writeBundle (optionsOf a) path p
    else
      announce (stageCount a) "Writing Python source"
      writeSource path source

/-- A whole run. -/
def program (now : Timestamp) (a : Arguments) : Run Unit := do
  checkArguments a
  let project ← prepare now a
  announce (stageCount a) "Generating Python"
  let source := project.forest.generate (optionsOf a)
  match a.emitProject with
  | none => pure ()
  | some path =>
    announce (stageCount a) "Writing project JSON"
    saveProject path project
  deliver a project source
  if a.stats then
    (statistics project source).forM fun line => print (line ++ "\n")

/-- What a run on a disk does, and why it stopped early if it did. -/
def run (now : Timestamp) (disk : Disk) (a : Arguments) : Except Failure Unit × Session :=
  (program now a).run.run { disk }

end Blockwork.CommandLine
