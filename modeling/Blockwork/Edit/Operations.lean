import Blockwork.Edit.Splice
import Blockwork.Log

/-!
# `Blockwork.Edit.Operations`: the five edits

An edit reads a forest and answers a new one or the reason why it refuses. Unknown ids and edits
that would break the shape of the forest are refused.

## Contents
- `Refusal` with its `message?`.
- `Patch`, what an update may change.
- `Forest.insert`, `update`, `delete`, `group`, `ungroup`.
-/

namespace Blockwork

/-! ## Refusals -/

/-- Why an edit is refused. -/
inductive Refusal where
  | unknownBlock (name : String)
  | updateMissing (id : BlockId)
  | deleteMissing (id : BlockId)
  | groupSelf (id : BlockId)
  | groupMissingChild (child : BlockId)
  | groupCycle (parent child : BlockId)
  | groupMissingParent (parent : BlockId)
  | groupLeaf (parent : BlockId) (kind : BlockKind)
  /-- the block was found but could not be cut out -/
  | groupLostChild (child : BlockId)
  /-- the parent went away with the block that was cut, because ids are not distinct -/
  | groupLostParent (parent : BlockId)
  | ungroupRoot (id : BlockId)
  | ungroupMissing (id : BlockId)
  deriving DecidableEq

namespace Refusal

/-- What is reported about a refusal. A block lost on the way between two searches is not. -/
def message? : Refusal → Option String
  | unknownBlock name => some ("insert ignored: unknown block '" ++ name ++ "'")
  | updateMissing id => some ("update ignored: no block '" ++ id ++ "'")
  | deleteMissing id => some ("delete ignored: no block '" ++ id ++ "'")
  | groupSelf id => some ("group ignored: '" ++ id ++ "' cannot contain itself")
  | groupMissingChild child => some ("group ignored: no child block '" ++ child ++ "'")
  | groupCycle parent child =>
    some ("group ignored: '" ++ parent ++ "' is nested inside '" ++ child ++ "'")
  | groupMissingParent parent => some ("group ignored: no parent block '" ++ parent ++ "'")
  | groupLeaf parent kind =>
    some ("group ignored: '" ++ parent ++ "' (" ++ kind.name ++ ") cannot contain blocks")
  | groupLostChild _ => none
  | groupLostParent _ => none
  | ungroupRoot id => some ("ungroup ignored: '" ++ id ++ "' is already top-level")
  | ungroupMissing id => some ("ungroup ignored: no block '" ++ id ++ "'")

/-- The messages about a refusal. -/
def log (r : Refusal) : List LogEntry :=
  (r.message?.map fun m => ⟨.debug, m⟩).toList

end Refusal

/-! ## Patches -/

/-- New values for the changeable fields of a block. -/
structure Patch where
  parameters : Settings
  position : Option Position
  collapsed : Option Bool
  deriving DecidableEq

/-- The patch that changes nothing. -/
def Patch.empty : Patch :=
  ⟨.empty, none, none⟩

instance : Inhabited Patch := ⟨Patch.empty⟩

namespace Block

/-- Whether the block's definition declares a parameter. -/
def declares (b : Block) (name : String) : Bool :=
  (b.definition.val.parameter? name).isSome

/-- The block with the declared parameters, the position and the flag of a patch. -/
def patch (b : Block) (p : Patch) : Block :=
  { b with
    parameters := b.parameters.override (p.parameters.entries.filter fun e => b.declares e.1)
    position := p.position.getD b.position
    collapsed := p.collapsed.getD b.collapsed }

/-- The messages about parameters of a patch that the block does not declare. -/
def skippedLog (b : Block) (p : Patch) : List LogEntry :=
  (p.parameters.entries.filter fun e => !b.declares e.1).map fun e =>
    ⟨.debug, "update of '" ++ b.id ++ "' skips undeclared parameter '" ++ e.1 ++ "'"⟩

end Block

/-! ## Edits -/

namespace Forest

/-- Adds a new top-level block at the end. -/
def insert (f : Forest) (name : String) (position : Position) :
    Except Refusal (BlockId × Forest) :=
  match Catalog.lookup name with
  | none => .error (.unknownBlock name)
  | some definition =>
    let (id, g) := f.allocate definition.val.id
    .ok (id, { g with roots := g.roots ++ [.node (Block.fresh id definition position) []] })

/-- Changes the fields of one block, and answers what is reported about the patch. -/
def update (f : Forest) (id : BlockId) (p : Patch) : Except Refusal (List LogEntry × Forest) :=
  match f.find? id with
  | none => .error (.updateMissing id)
  | some target =>
    match Tree.modifyIn? id (Tree.mapRoot (·.patch p)) f.roots with
    | none => .error (.updateMissing id)
    | some roots => .ok (target.block.skippedLog p, { f with roots })

/-- Removes a block with everything in it. -/
def delete (f : Forest) (id : BlockId) : Except Refusal Forest :=
  match Tree.cut? id f.roots with
  | none => .error (.deleteMissing id)
  | some (_, roots) => .ok { f with roots }

/-- Moves a block to the end of another block's content. -/
def group (f : Forest) (parent child : BlockId) : Except Refusal Forest :=
  if parent = child then .error (.groupSelf child)
  else
    match f.find? child with
    | none => .error (.groupMissingChild child)
    | some moving =>
      if moving.contains parent then .error (.groupCycle parent child)
      else
        match f.find? parent with
        | none => .error (.groupMissingParent parent)
        | some target =>
          if !target.block.canOwnChildren then .error (.groupLeaf parent target.block.kind)
          else
            match Tree.cut? child f.roots with
            | none => .error (.groupLostChild child)
            | some (moved, rest) =>
              let moved := moved.mapRoot (·.setParent (some parent))
              match Tree.modifyIn? parent (Tree.addChild moved) rest with
              | none => .error (.groupLostParent parent)
              | some roots => .ok { f with roots }

/-- Moves a nested block to the end of the top level. -/
def ungroup (f : Forest) (child : BlockId) : Except Refusal Forest :=
  if f.roots.any (·.id == child) then .error (.ungroupRoot child)
  else
    match Tree.cut? child f.roots with
    | none => .error (.ungroupMissing child)
    | some (moved, rest) =>
      .ok { f with roots := rest ++ [moved.mapRoot (·.setParent none)] }

end Forest

end Blockwork
