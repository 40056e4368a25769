import Blockwork.Forest.Basic
import Blockwork.Json.Writer
import Blockwork.Saved.Scalar

/-!
# `Blockwork.Saved.Forest`: saved values, positions, blocks and forests

A forest is saved as the array of its top-level blocks, a block as an object with its fields in a
fixed order; the id of the parent is left out where there is none. In loading, everything but the id
and the type of a block may be missing.

## Contents
- `Value`, `Settings`, `Position`: `encode` and `decode`.
- `Tree.encode` and `Tree.decode`, `decodeTrees`.
- `Forest.encode`, `Forest.decode`, `Forest.parse`.
-/

namespace Blockwork

open Saved

/-! ## Values -/

/-- The tree of a value. -/
def Value.encode : Value → Json
  | .bool b => .bool b
  | .number x => .number (.real x)
  | .text s => .text s

/-- The value of a tree; all of the tree is read before it is looked at. -/
def Value.decode (depth : Nat) (j : Json) : Decode Value :=
  if !j.readable depth then .error .malformed
  else
    match j with
    | .bool b => .ok (.bool b)
    | .number n => .ok (.number n.toBinary64)
    | .text s => .ok (.text s)
    | _ => Mismatch.noValue.fail

/-- The tree of parameter values. -/
def Settings.encode (s : Settings) : Json :=
  .record (s.entries.map fun (name, value) => (name, value.encode))

/-- The parameter values of an object; of equal names the last counts. -/
def Settings.decode (depth : Nat) : Json → Decode Settings
  | .object members =>
    decodeMembers (fun s name j => (Value.decode depth j).map (s.insert name)) .empty members
  | j => j.refuse "a map"

/-! ## Positions -/

namespace Position

/-- The tree of a position. -/
def encode (p : Position) : Json :=
  .record [("x", .number (.real p.x)), ("y", .number (.real p.y))]

/-- A position of which not all may be known. -/
structure Draft where
  x : Option Binary64 := none
  y : Option Binary64 := none

/-- Takes one field. -/
def Draft.field (draft : Draft) (name : String) (j : Json) : Decode Draft :=
  match name with
  | "x" => (once name draft.x (decodeNumber j)).map fun x => { draft with x }
  | "y" => (once name draft.y (decodeNumber j)).map fun y => { draft with y }
  | _ => (skip j).map fun _ => draft

/-- The position, if all is known. -/
def Draft.finish (missing : String → Mismatch) (draft : Draft) : Decode Position := do
  return ⟨← require (missing "x") draft.x, ← require (missing "y") draft.y⟩

/-- The position of a tree. -/
def decode (origin : Origin) (j : Json) : Decode Position :=
  decodeRecord origin "struct Position" ["x", "y"] Draft.field {} Draft.finish j

end Position

/-! ## Blocks -/

namespace Tree

mutual

/-- The tree of a block and its content. -/
def encode : Tree → Json
  | node b ts =>
    .record
      ([("id", .text b.id), ("block", .text b.definition.val.id),
          ("position", b.position.encode), ("parameters", b.parameters.encode),
          ("children", .array (encodeAll ts)), ("collapsed", .bool b.collapsed)] ++
        match b.parent with
        | some p => [("parentId", .text p)]
        | none => [])

/-- The trees of siblings. -/
def encodeAll : List Tree → List Json
  | [] => []
  | t :: ts => encode t :: encodeAll ts

end

/-- A block of which not all may be known. -/
structure Draft where
  id : Option BlockId := none
  definition : Option Entry := none
  position : Position := .origin
  parameters : Settings := .empty
  children : List Tree := []
  collapsed : Bool := false
  parent : Option BlockId := none

/-- The fields of a block in their order. -/
def fieldNames : List String :=
  ["id", "block", "position", "parameters", "children", "collapsed", "parentId"]

/-- The type of block with a given id. -/
def decodeDefinition (j : Json) : Decode Entry := do
  let id ← decodeText j
  match Catalog.lookup id with
  | some e => return e
  | none => (Mismatch.unknownBlock id).fail

/-- Takes one field that holds no blocks. -/
def Draft.field (draft : Draft) (name : String) (j : Json) : Decode Draft :=
  match name with
  | "id" => (decodeText j).map fun id => { draft with id := some id }
  | "block" => (decodeDefinition j).map fun e => { draft with definition := some e }
  | "position" => (Position.decode .whole j).map fun position => { draft with position }
  | "parameters" =>
    (Settings.decode Origin.whole.depth j).map fun parameters => { draft with parameters }
  | "collapsed" => (decodeBool j).map fun collapsed => { draft with collapsed }
  | "parentId" => (decodeOption decodeText j).map fun parent => { draft with parent }
  | _ => .ok draft

/-- The tree, if all that is needed is known. -/
def Draft.finish (missing : String → Mismatch) (draft : Draft) : Decode Tree := do
  let id ← require (missing "id") draft.id
  let definition ← require (missing "block") draft.definition
  return node
    { id, definition
      position := draft.position
      parameters := draft.parameters
      collapsed := draft.collapsed
      parent := draft.parent } draft.children

mutual

/-- The block of a completely read tree, with its content. -/
def decode : Json → Decode Tree
  | .object members => do Draft.finish .missingField (← decodeMembers {} members)
  | .array items => do
    let draft ← decodeItems {} fieldNames items
    let expected := "struct BlockInstance with 7 elements"
    let t ← draft.finish fun _ => .invalidLength items.length expected
    if fieldNames.length < items.length then
      .error (Origin.whole.surplus items.length fieldNames.length)
    else return t
  | j => j.refuse "struct BlockInstance"

/-- Takes one field of a block. -/
def decodeField (draft : Draft) (name : String) : Json → Decode Draft
  | .array items =>
    if name = "children" then (decodeAll items).map fun children => { draft with children }
    else draft.field name (.array items)
  | j => if name = "children" then j.refuse "a sequence" else draft.field name j

/-- Takes the fields of an object. -/
def decodeMembers (draft : Draft) : List (Option String × Json) → Decode Draft
  | [] => .ok draft
  | (none, _) :: _ => .error .malformed
  | (some name, j) :: rest => do decodeMembers (← decodeField draft name j) rest

/-- Takes the fields of an array. -/
def decodeItems (draft : Draft) (names : List String) : List Json → Decode Draft
  | [] => .ok draft
  | j :: rest =>
    match names with
    | [] => .ok draft
    | name :: names => do decodeItems (← decodeField draft name j) names rest

/-- The blocks of an array. -/
def decodeAll : List Json → Decode (List Tree)
  | [] => .ok []
  | j :: rest => do return (← decode j) :: (← decodeAll rest)

end

/-- The blocks of a completely read tree. -/
def decodeList : Json → Decode (List Tree)
  | .array items => decodeAll items
  | j => j.refuse "a sequence"

end Tree

/-! ## Forests -/

namespace Forest

/-- The tree of a forest. -/
def encode (f : Forest) : Json :=
  .array (Tree.encodeAll f.roots)

/-- The forest of a completely read tree. -/
def decode (j : Json) : Decode Forest :=
  (Tree.decodeList j).map ofTrees

/-- The forest of a text. -/
def parse (s : String) : Decode Forest := do
  decode (← ofWholeText s)

/-- The forest as a compact text. -/
def toText (f : Forest) : String :=
  f.encode.compact

end Forest

end Blockwork
