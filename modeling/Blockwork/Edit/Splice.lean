import Blockwork.Forest.Basic

/-!
# `Blockwork.Edit.Splice`: changing and cutting one tree

Edits find their target by id. Changing looks for it in the order of the walk; cutting looks through
a whole list of siblings before it goes deeper. With distinct ids the two find the same block.

## Contents
- `Tree.modify?` and `Tree.modifyIn?`, the first match changed.
- `Tree.cut?`, the first match taken out with its content.
-/

namespace Blockwork.Tree

/-! ## Changing -/

mutual

/-- The tree with `f` applied at the first root with a given id. -/
def modify? (id : BlockId) (f : Tree → Tree) : Tree → Option Tree
  | node b ts => if b.id = id then some (f (node b ts)) else (modifyIn? id f ts).map (node b)

/-- The siblings with `f` applied at the first root with a given id. -/
def modifyIn? (id : BlockId) (f : Tree → Tree) : List Tree → Option (List Tree)
  | [] => none
  | t :: ts =>
    match modify? id f t with
    | some changed => some (changed :: ts)
    | none => (modifyIn? id f ts).map (t :: ·)

end

/-! ## Cutting -/

/-- The first of the siblings themselves with a given id, and the others. -/
def cutHere? (id : BlockId) : List Tree → Option (Tree × List Tree)
  | [] => none
  | t :: ts =>
    if t.id = id then some (t, ts) else (cutHere? id ts).map fun (found, rest) => (found, t :: rest)

mutual

/-- The first tree with a given id below the root, and the tree without it. -/
def cutInside? (id : BlockId) : Tree → Option (Tree × Tree)
  | node b ts =>
    match cutHere? id ts with
    | some (found, rest) => some (found, node b rest)
    | none => (cutBelow? id ts).map fun (found, rest) => (found, node b rest)

/-- The first tree with a given id below one of the siblings, and the siblings without it. -/
def cutBelow? (id : BlockId) : List Tree → Option (Tree × List Tree)
  | [] => none
  | t :: ts =>
    match cutInside? id t with
    | some (found, rest) => some (found, rest :: ts)
    | none => (cutBelow? id ts).map fun (found, rest) => (found, t :: rest)

end

/-- The tree with a given id, siblings first, and what is left without it. -/
def cut? (id : BlockId) (ts : List Tree) : Option (Tree × List Tree) :=
  match cutHere? id ts with
  | some r => some r
  | none => cutBelow? id ts

end Blockwork.Tree
