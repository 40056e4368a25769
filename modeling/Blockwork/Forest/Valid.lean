import Blockwork.Forest.Basic

/-!
# `Blockwork.Forest.Valid`: when a forest is well formed

Ids are distinct, every block names the block that holds it as its parent, a root names none, and
only blocks of a kind that opens a suite hold others. The check walks the blocks outermost first
and stops at the first one that breaks a rule.

## Contents
- `Violation` with its `message`.
- `Tree.check` and `Tree.checkAll`, the check with the ids seen so far.
- `Forest.validate`.
-/

namespace Blockwork

/-- Why a forest is not well formed. -/
inductive Violation where
  /-- a root names a parent -/
  | rootWithParent (id parent : BlockId)
  /-- an id occurs again -/
  | duplicateId (id : BlockId)
  /-- a block of a kind that holds nothing has content -/
  | leafWithContent (id : BlockId) (kind : BlockKind)
  /-- a nested block does not name the block that holds it -/
  | wrongParent (id container : BlockId) (claimed : Option BlockId)
  deriving DecidableEq

namespace Violation

/-- The text of a violation. -/
def message : Violation → String
  | rootWithParent id parent => "top-level block '" ++ id ++ "' claims parent '" ++ parent ++ "'"
  | duplicateId id => "block '" ++ id ++ "' appears more than once"
  | leafWithContent id kind =>
    "block '" ++ id ++ "' of kind '" ++ kind.name ++ "' cannot contain other blocks"
  | wrongParent id container claimed =>
    "block '" ++ id ++ "' is nested in '" ++ container ++ "' but its parentId is " ++
      match claimed with
      | some p => "'" ++ p ++ "'"
      | none => "unset"

end Violation

/-! ## The check -/

/-- The rule on parents: a block inside `container` names it, a root names none. -/
def Block.checkParent (container : Option BlockId) (b : Block) : Except Violation Unit :=
  match container with
  | none =>
    match b.parent with
    | some p => .error (.rootWithParent b.id p)
    | none => .ok ()
  | some c => if b.parent = some c then .ok () else .error (.wrongParent b.id c b.parent)

namespace Tree

mutual

/-- Checks the ids and the contents of a tree; answers the ids seen so far. -/
def check (seen : List BlockId) : Tree → Except Violation (List BlockId)
  | node b ts =>
    if b.id ∈ seen then .error (.duplicateId b.id)
    else if !ts.isEmpty && !b.canOwnChildren then .error (.leafWithContent b.id b.kind)
    else checkAll (some b.id) (b.id :: seen) ts

/-- Checks siblings inside `container`, each with its parent first. -/
def checkAll (container : Option BlockId) (seen : List BlockId) :
    List Tree → Except Violation (List BlockId)
  | [] => .ok seen
  | t :: ts =>
    match t.block.checkParent container with
    | .error v => .error v
    | .ok () =>
      match check seen t with
      | .error v => .error v
      | .ok seen => checkAll container seen ts

end

end Tree

/-- Checks the whole forest. -/
def Forest.validate (f : Forest) : Except Violation Unit :=
  (Tree.checkAll none [] f.roots).map fun _ => ()

/-- A forest that passes the check. -/
def Forest.Valid (f : Forest) : Prop :=
  f.validate = .ok ()

end Blockwork
