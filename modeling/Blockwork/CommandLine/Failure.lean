import Blockwork.Bundle
import Blockwork.Files.Disk

/-!
# `Blockwork.CommandLine.Failure`: why a run stops

A failure has a message and often a cause, which has a message of its own.

## Contents
- `FileError`, `Cause`, `Failure`, each with its `message`; `Failure.cause?`.
-/

namespace Blockwork.CommandLine

/-- Why a file has no text. -/
inductive FileError where
  | system (error : SystemError)
  | notText

/-- What is reported about a file that has no text. -/
def FileError.message : FileError → String
  | system error => error.message
  | notText => "stream did not contain valid UTF-8"

/-- What lies behind a failure. -/
inductive Cause where
  /-- A file could not be read or written. -/
  | file (error : FileError)
  /-- A project file could not be read or written. -/
  | projectFile (error : FileError)
  | commands (error : DecodeError)
  | project (error : Project.LoadError)
  | bundle (error : Bundle.ReadError)

/-- What is reported about a cause. -/
def Cause.message : Cause → String
  | file error => error.message
  | projectFile error => "I/O error: " ++ error.message
  | commands error => error.message
  | project error => error.message
  | bundle error => error.message

/-- Why a run stops. -/
inductive Failure where
  /-- A bundle is asked for but no output. -/
  | outputNeeded
  /-- Levels without width are asked for. -/
  | noWidth
  | inputNotFound (path : String)
  | cannotRead (path : String) (error : FileError)
  | cannotLoad (path : String) (cause : Cause)
  | cannotReadBundle (path : String) (cause : Cause)
  | notCommands (path : String) (error : DecodeError)
  | cannotWrite (path : String) (error : SystemError)
  /-- The forest is not well formed. -/
  | badForest (violation : Violation)
  /-- The project or the bundle cannot be written. -/
  | cannotSave (error : SystemError)
  /-- The bundle does not fit into an archive. -/
  | tooLarge

namespace Failure

/-- A path between quotation marks, in a message. -/
def quoted (path : String) : String :=
  "'" ++ path ++ "'"

/-- What is reported about a failure. -/
def message : Failure → String
  | outputNeeded => "--bundle requires an OUTPUT path."
  | noWidth => "--indent-width must be at least 1."
  | inputNotFound path => "Input file not found: " ++ quoted path ++ "."
  | cannotRead path _ => "Failed to read " ++ quoted path ++ "."
  | cannotLoad path _ => "Failed to load project " ++ quoted path ++ "."
  | cannotReadBundle path _ => "Failed to read bundle " ++ quoted path ++ "."
  | notCommands path _ => quoted path ++ " is not a JSON array of commands."
  | cannotWrite path _ => "Failed to write " ++ quoted path ++ "."
  | badForest violation => (Cause.project (.invalid violation)).message
  | cannotSave error => (Cause.projectFile (.system error)).message
  | tooLarge => "I/O error: Large file option has not been set"

/-- What lies behind a failure. -/
def cause? : Failure → Option Cause
  | cannotRead _ error => some (.file error)
  | cannotLoad _ cause => some cause
  | cannotReadBundle _ cause => some cause
  | notCommands _ error => some (.commands error)
  | cannotWrite _ error => some (.file (.system error))
  | _ => none

end Failure

end Blockwork.CommandLine
