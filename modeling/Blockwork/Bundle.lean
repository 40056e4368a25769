import Blockwork.Archive.Reader
import Blockwork.Archive.Writer
import Blockwork.Digest.Md5
import Blockwork.Project
import Blockwork.Source.Generate

/-!
# `Blockwork.Bundle`: a project with its source in one file

A bundle is an archive of three files: a manifest, the project and the source generated from it. The
manifest names the format, the file with the source and the digest of the source.

## Contents
- `Bundle`, `Bundle.ofProject`, `manifest`, `items`.
- `write?`, the bytes of a bundle.
- `ReadError` with its `message`, and `Bundle.read`.
-/

namespace Blockwork

/-- A project and the source generated from it. -/
structure Bundle where
  project : Project
  source : String

namespace Bundle

/-! ## Names -/

/-- The format that the manifest names. -/
def format : String := "pyblocks"

/-- The version that the manifest names. -/
def version : Nat := 1

/-- The file with the manifest. -/
def manifestFile : String := "manifest.json"

/-- The file with the project. -/
def projectFile : String := "project.json"

/-- The file with the source, unless the manifest names another. -/
def sourceFile : String := "main.py"

/-- The digest of a source. -/
def sourceDigest (source : String) : String :=
  Md5.hex (Utf8.encode source)

/-! ## Writing -/

/-- A project with its source. -/
def ofProject (options : Options) (p : Project) : Bundle :=
  ⟨p, p.forest.generate options⟩

/-- The manifest. -/
def manifest (b : Bundle) : Json :=
  .record
    [("block_count", .number (.natural b.project.forest.size)), ("entry_file", .text sourceFile),
      ("format", .text format), ("name", .text b.project.name),
      ("source_md5", .text (sourceDigest b.source)), ("version", .number (.natural version))]

/-- The files of a bundle with their texts. -/
def files (b : Bundle) : List (String × String) :=
  [(manifestFile, b.manifest.pretty), (projectFile, b.project.toText), (sourceFile, b.source)]

/-- The files of a bundle as they are put into the archive. -/
def items (b : Bundle) : List Archive.Item :=
  b.files.map fun (name, text) => ⟨name, Utf8.encode text⟩

/-- The bytes of a bundle, unless they are too many for an archive. -/
def write? (b : Bundle) : Option (List UInt8) :=
  Archive.write? b.items

/-! ## Reading -/

/-- Why bytes are no bundle. -/
inductive ReadError where
  | notAnArchive
  | missing (file : String)
  | content (error : Archive.ContentError)
  /-- a file that is not text -/
  | notText
  | manifest (error : DecodeError)
  | unknownFormat (found : String)
  | unsupportedVersion (found : Nat)
  | project (error : Project.LoadError)
  /-- a source whose digest is not the one in the manifest -/
  | wrongDigest (file : String)

/-- What is reported about the failure. -/
def ReadError.message : ReadError → String
  | notAnArchive => "Invalid bundle: input is not a valid .pyblocks archive"
  | missing file => "Invalid bundle: missing '" ++ file ++ "' in archive"
  | content error => "I/O error: " ++ error.message
  | notText => "I/O error: stream did not contain valid UTF-8"
  | manifest error => error.message
  | unknownFormat found => "Invalid bundle: unknown archive format '" ++ found ++ "'"
  | unsupportedVersion found =>
    "Invalid bundle: unsupported version " ++ toString found ++ " (expected " ++ toString version ++
      ")"
  | project error => error.message
  | wrongDigest file => "Invalid bundle: '" ++ file ++ "' does not match its manifest checksum"

/-- The text of a file of an archive. -/
def readFile (a : Archive) (name : String) : Except ReadError String := do
  let member ← (a.find? name).elim (.error (.missing name)) .ok
  let bytes ← member.content.mapError .content
  (Utf8.decode? bytes).elim (.error .notText) .ok

/-- The text of a member of the manifest; none if there is none or it is not text. -/
def manifestText? (manifest : Json) (name : String) : Option String :=
  (manifest.get? name).bind (·.text?)

/-- The version that a manifest names; zero if it names none. -/
def versionOf (manifest : Json) : Nat :=
  match manifest.get? "version" with
  | some (.number (.natural n)) => n
  | _ => 0

/-- The file with the source. A blank name does not count. -/
def sourceFileOf (manifest : Json) : String :=
  ((manifestText? manifest "entry_file").filter fun s => !(Text.trim s).isEmpty).getD sourceFile

/-- Whether the source has the digest that the manifest gives, if it gives one. -/
def hasDigest (manifest : Json) (source : String) : Bool :=
  match manifestText? manifest "source_md5" with
  | some digest => sourceDigest source == digest
  | none => true

/-- Checks the format and the version that a manifest names. -/
def checkManifest (manifest : Json) : Except ReadError Unit :=
  let found := (manifestText? manifest "format").getD ""
  if found ≠ format then .error (.unknownFormat found)
  else if versionOf manifest ≠ version then .error (.unsupportedVersion (versionOf manifest))
  else .ok ()

/-- The bundle in an archive. -/
def ofArchive (now : Timestamp) (a : Archive) : Except ReadError Bundle := do
  let manifest ← (Saved.ofWholeText (← readFile a manifestFile)).mapError .manifest
  checkManifest manifest
  let project ← (Project.parse now (← readFile a projectFile)).mapError .project
  let file := sourceFileOf manifest
  let source ← readFile a file
  if hasDigest manifest source then return ⟨project, source⟩ else throw (.wrongDigest file)

/-- The bundle in some bytes. -/
def read (now : Timestamp) (bytes : List UInt8) : Except ReadError Bundle :=
  match Archive.ofBytes? bytes with
  | some a => ofArchive now a
  | none => .error .notAnArchive

end Bundle

end Blockwork
