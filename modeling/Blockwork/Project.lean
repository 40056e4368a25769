import Blockwork.Saved.Command
import Blockwork.Forest.Valid
import Blockwork.Time.Reader

/-!
# `Blockwork.Project`: saved projects

A project is a named forest with the moments of its creation and of its last change. A bare array
of blocks is the forest of a project without a name. A project is only taken over if its forest is
well formed.

## Contents
- `Project`, with `create`, `touch` and `exportFileName`.
- `encode`, `toText`; `LoadError`, `decode`, `parse`.
- `same`, equality up to numeric equality of numbers.
-/

namespace Blockwork

open Saved

/-- A named forest. -/
structure Project where
  name : String
  description : String
  forest : Forest
  createdAt : Timestamp
  updatedAt : Timestamp

namespace Project

/-- The name of a project without a name. -/
def untitled : String :=
  "Untitled"

/-- A new project; blanks around the name and the description do not count. -/
def create (now : Timestamp) (name description : String) (forest : Forest) : Project :=
  let name := Text.trim name
  { name := if name.isEmpty then untitled else name
    description := Text.trim description
    forest
    createdAt := now
    updatedAt := now }

/-- The project changed just now, but not before it was created. -/
def touch (now : Timestamp) (p : Project) : Project :=
  { p with updatedAt := now.max p.createdAt }

/-- The name of the file to which the project is exported: its words joined by underscores. -/
def exportFileName (p : Project) : String :=
  "_".intercalate (Text.words p.name) ++ ".json"

/-- Whether two projects are equal, numbers being compared numerically. -/
def same (p q : Project) : Bool :=
  p.name == q.name && p.description == q.description && p.forest.same q.forest &&
    p.createdAt == q.createdAt && p.updatedAt == q.updatedAt

/-! ## Saving -/

/-- The tree of a project. -/
def encode (p : Project) : Json :=
  .record
    [("name", .text p.name), ("description", .text p.description), ("blocks", p.forest.encode),
      ("createdAt", .text p.createdAt.write), ("updatedAt", .text p.updatedAt.write)]

/-- The text of a project. -/
def toText (p : Project) : String :=
  p.encode.pretty

/-! ## Loading -/

/-- Why a text is no project. -/
inductive LoadError where
  | decode (error : DecodeError)
  | invalid (violation : Violation)

/-- What is reported about a text that is no project. -/
def LoadError.message : LoadError → String
  | decode e => e.message
  | invalid v => "Invalid forest: " ++ v.message

/-- A project of which not all may be known. -/
structure Draft where
  name : Option String := none
  description : String := ""
  forest : Option Forest := none
  createdAt : Timestamp
  updatedAt : Timestamp

/-- The moment that a text denotes. -/
def decodeTimestamp : Json → Decode Timestamp
  | .text s =>
    match Timestamp.parse s with
    | .ok t => .ok t
    | .error e => (Mismatch.badTimestamp e).fail
  | j => j.refuse "an RFC 3339 formatted date and time string"

/-- Takes one field. -/
def Draft.field (draft : Draft) (name : String) (j : Json) : Decode Draft :=
  match name with
  | "name" => (decodeText j).map fun s => { draft with name := some s }
  | "description" => (decodeText j).map fun description => { draft with description }
  | "blocks" => (Forest.decode j).map fun f => { draft with forest := some f }
  | "createdAt" => (decodeTimestamp j).map fun createdAt => { draft with createdAt }
  | "updatedAt" => (decodeTimestamp j).map fun updatedAt => { draft with updatedAt }
  | _ => .ok draft

/-- The project, if all that is needed is known. -/
def Draft.finish (missing : String → Mismatch) (draft : Draft) : Decode Project := do
  let name ← require (missing "name") draft.name
  let forest ← require (missing "blocks") draft.forest
  return ⟨name, draft.description, forest, draft.createdAt, draft.updatedAt⟩

/-- The project of a completely read tree. A missing moment is `now`. -/
def decode (now : Timestamp) : Json → Decode Project
  | .array items => (Forest.decode (.array items)).map (create now untitled "")
  | j =>
    decodeRecord .whole "struct ProjectRecord"
      ["name", "description", "blocks", "createdAt", "updatedAt"] Draft.field
      { createdAt := now, updatedAt := now } Draft.finish j

/-- The project of a text. -/
def parse (now : Timestamp) (s : String) : Except LoadError Project := do
  let p ← ((ofWholeText s).bind (decode now)).mapError LoadError.decode
  let _ ← p.forest.validate.mapError LoadError.invalid
  return p

end Project

end Blockwork
