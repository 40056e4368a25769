import Blockwork.Edit.Command
import Blockwork.Saved.Forest

/-!
# `Blockwork.Saved.Command`: saved patches and commands

A command is saved as an object whose field `op` names it, beside its arguments; it may also be read
from an array that starts with the name. The name is looked at when it is met, the arguments only
after all of the command has been read.

## Contents
- `Patch.encode`, `Patch.decode`, `Patch.parse`.
- `Command.encode`, `Command.decode`, `Command.parse`, `Command.parseList`.
-/

namespace Blockwork

open Saved

/-! ## Patches -/

namespace Patch

/-- The tree of a patch; what does not change is null. -/
def encode (p : Patch) : Json :=
  .record
    [("parameters", p.parameters.encode),
      ("position", (p.position.map Position.encode).getD .null),
      ("collapsed", (p.collapsed.map Json.bool).getD .null)]

/-- A patch of which not all may be known. -/
structure Draft where
  parameters : Option Settings := none
  position : Option (Option Position) := none
  collapsed : Option (Option Bool) := none

/-- Takes one field. -/
def Draft.field (origin : Origin) (draft : Draft) (name : String) (j : Json) : Decode Draft :=
  match name with
  | "parameters" =>
    (once name draft.parameters (Settings.decode origin.depth j)).map fun parameters =>
      { draft with parameters }
  | "position" =>
    (once name draft.position (decodeOption (Position.decode origin) j)).map fun position =>
      { draft with position }
  | "collapsed" =>
    (once name draft.collapsed (decodeOption decodeBool j)).map fun collapsed =>
      { draft with collapsed }
  | _ => (skip j).map fun _ => draft

/-- The patch; nothing has to be there. -/
def Draft.finish (draft : Draft) : Patch :=
  ⟨draft.parameters.getD .empty, draft.position.getD none, draft.collapsed.getD none⟩

/-- The patch of a tree. -/
def decode (origin : Origin) (j : Json) : Decode Patch :=
  decodeRecord origin "struct Patch" ["parameters", "position", "collapsed"] (Draft.field origin) {}
    (fun _ draft => .ok draft.finish) j

/-- The patch of a text, read on the way. -/
def parse (s : String) : Decode Patch :=
  decodeStream (decode (.streamed (depthLimit - 2))) s

end Patch

/-- The value of a text, read on the way. -/
def Value.parseText (s : String) : Decode Value :=
  decodeStream (Value.decode depthLimit) s

/-! ## Commands -/

namespace Command

/-- The tree of a command. -/
def encode : Command → Json
  | insert block position =>
    .record [("op", .text "insert"), ("block", .text block), ("position", position.encode)]
  | update id patch => .record [("op", .text "update"), ("id", .text id), ("patch", patch.encode)]
  | delete id => .record [("op", .text "delete"), ("id", .text id)]
  | group parent child =>
    .record [("op", .text "group"), ("parent", .text parent), ("child", .text child)]
  | ungroup id => .record [("op", .text "ungroup"), ("id", .text id)]

/-- The names of commands. -/
inductive Tag where
  | insert | update | delete | group | ungroup
  deriving DecidableEq

namespace Tag

/-- The commands, in the order in which a message lists them. -/
def all : List Tag :=
  [insert, update, delete, group, ungroup]

/-- The name in saved texts. -/
def name : Tag → String
  | insert => "insert"
  | update => "update"
  | delete => "delete"
  | group => "group"
  | ungroup => "ungroup"

/-- The command named by a tree. -/
def decode : Json → Decode Tag
  | .text s =>
    match all.find? (·.name == s) with
    | some t => .ok t
    | none => (Mismatch.unknownVariant s (all.map name)).fail
  | j => j.refuse "variant identifier"

end Tag

/-- Arguments of which not all may be known. -/
structure Draft where
  id : Option BlockId := none
  block : Option String := none
  parent : Option BlockId := none
  child : Option BlockId := none
  position : Option Position := none
  patch : Option Patch := none

/-- Takes one argument out of those with the given names. -/
def Draft.field (names : List String) (draft : Draft) (name : String) (j : Json) : Decode Draft :=
  if name ∉ names then (skip j).map fun _ => draft
  else
    match name with
    | "id" => (once name draft.id (decodeText j)).map fun id => { draft with id }
    | "block" => (once name draft.block (decodeText j)).map fun block => { draft with block }
    | "parent" => (once name draft.parent (decodeText j)).map fun parent => { draft with parent }
    | "child" => (once name draft.child (decodeText j)).map fun child => { draft with child }
    | "position" =>
      (once name draft.position (Position.decode .buffered j)).map fun position =>
        { draft with position }
    | "patch" => (once name draft.patch (Patch.decode .buffered j)).map fun patch =>
        { draft with patch }
    | _ => (skip j).map fun _ => draft

/-- The record name and the arguments of a command. -/
def Tag.shape : Tag → String × List String
  | insert => ("struct variant Command::Insert", ["block", "position"])
  | update => ("struct variant Command::Update", ["id", "patch"])
  | delete => ("struct variant Command::Delete", ["id"])
  | group => ("struct variant Command::Group", ["parent", "child"])
  | ungroup => ("struct variant Command::Ungroup", ["id"])

/-- The command, if all that is needed is known. -/
def Tag.finish (tag : Tag) (missing : String → Mismatch) (draft : Draft) : Decode Command :=
  match tag with
  | .insert => do
    let block ← require (missing "block") draft.block
    return .insert block (draft.position.getD .origin)
  | .update => do
    let id ← require (missing "id") draft.id
    return .update id (draft.patch.getD .empty)
  | .delete => (require (missing "id") draft.id).map .delete
  | .group => do
    let parent ← require (missing "parent") draft.parent
    let child ← require (missing "child") draft.child
    return .group parent child
  | .ungroup => (require (missing "id") draft.id).map .ungroup

/-- The command made of a name and its arguments. -/
def Tag.decodeArguments (tag : Tag) (arguments : Json) : Decode Command :=
  let (record, names) := tag.shape
  decodeRecord .buffered record names (Draft.field names) {} tag.finish arguments

/-- The name among the members of an object, and the other members, which are nested at most
`depth` deep. -/
def splitTag (depth : Nat) (tag : Option Tag) :
    List (Option String × Json) → Decode (Tag × List (Option String × Json))
  | [] => (require (.missingField "op") tag).map fun t => (t, [])
  | (none, _) :: _ => .error .malformed
  | (some key, j) :: rest =>
    if key = "op" then do splitTag depth (← once key tag (Tag.decode j)) rest
    else if j.readable depth then
      (splitTag depth tag rest).map fun (t, others) => (t, (some key, j) :: others)
    else .error .malformed

/-- The command of a tree nested at most `depth` deep. -/
def decode (depth : Nat) : Json → Decode Command
  | .object members => do
    let (tag, others) ← splitTag (depth - 1) none members
    tag.decodeArguments (.object others)
  | .array [] => (Mismatch.missingField "op").fail
  | .array (j :: rest) => do
    let tag ← Tag.decode j
    if Json.readableAll (depth - 1) rest then tag.decodeArguments (.array rest)
    else .error .malformed
  | j => j.refuse "internally tagged enum Command"

/-- The commands of the items of an array, each taken before the next is looked at. -/
def decodeAll (depth : Nat) : List Json → Decode (List Command)
  | [] => .ok []
  | j :: rest => do return (← decode depth j) :: (← decodeAll depth rest)

/-- The commands of a tree. -/
def decodeList (depth : Nat) : Json → Decode (List Command)
  | .array items => decodeAll (depth - 1) items
  | j => j.refuse "a sequence"

/-- The command of a text, read on the way. -/
def parse (s : String) : Decode Command :=
  decodeStream (decode depthLimit) s

/-- The commands of a text, read on the way. -/
def parseList (s : String) : Decode (List Command) :=
  decodeStream (decodeList depthLimit) s

end Command

end Blockwork
