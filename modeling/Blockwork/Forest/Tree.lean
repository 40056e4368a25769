import Blockwork.Forest.Block

/-!
# `Blockwork.Forest.Tree`: blocks with their content

A tree is a block together with the trees it holds, in order. Questions about a tree come in pairs,
one for a tree and one for a list of siblings.

## Contents
- `Tree`, with `block` and `children`.
- `preorder`, the blocks with their depths, outermost first; `size`, `height`.
- `find?` and `contains`, search in that order.
- `mapRoot` and `addChild`; `map`, the same change to every block.
- `same`, equality up to numeric equality of numbers.
-/

namespace Blockwork

/-- A block and what it holds. -/
inductive Tree where
  | node (block : Block) (children : List Tree)

namespace Tree

/-- The block at the root. -/
def block : Tree → Block
  | node b _ => b

/-- The trees right below the root. -/
def children : Tree → List Tree
  | node _ ts => ts

@[simp] theorem block_node (b : Block) (ts : List Tree) : (node b ts).block = b := rfl

@[simp] theorem children_node (b : Block) (ts : List Tree) : (node b ts).children = ts := rfl

/-- The id of the root. -/
def id (t : Tree) : BlockId :=
  t.block.id

/-! ## Walking -/

mutual

/-- The blocks of a tree with their depths, a block before its content, siblings in order. -/
def preorder (depth : Nat) : Tree → List (Nat × Block)
  | node b ts => (depth, b) :: preorderAll (depth + 1) ts

/-- The blocks of a list of siblings with their depths. -/
def preorderAll (depth : Nat) : List Tree → List (Nat × Block)
  | [] => []
  | t :: ts => preorder depth t ++ preorderAll depth ts

end

mutual

/-- How many blocks a tree has. -/
def size : Tree → Nat
  | node _ ts => 1 + sizeAll ts

/-- How many blocks a list of siblings has. -/
def sizeAll : List Tree → Nat
  | [] => 0
  | t :: ts => size t + sizeAll ts

end

mutual

/-- How many levels a tree has. -/
def height : Tree → Nat
  | node _ ts => 1 + heightAll ts

/-- How many levels a list of siblings has. -/
def heightAll : List Tree → Nat
  | [] => 0
  | t :: ts => max (height t) (heightAll ts)

end

/-! ## Searching -/

mutual

/-- The first tree, in the order of the walk, whose root has a given id. -/
def find? (id : BlockId) : Tree → Option Tree
  | node b ts => if b.id = id then some (node b ts) else findAll? id ts

/-- The first tree below a list of siblings whose root has a given id. -/
def findAll? (id : BlockId) : List Tree → Option Tree
  | [] => none
  | t :: ts =>
    match find? id t with
    | some found => some found
    | none => findAll? id ts

end

/-- Whether some block of the tree has a given id. -/
def contains (t : Tree) (id : BlockId) : Bool :=
  (t.find? id).isSome

/-! ## Changing a tree -/

/-- The tree with `f` applied to the block at its root. -/
def mapRoot (f : Block → Block) : Tree → Tree
  | node b ts => node (f b) ts

/-- The tree with one more child, at the end. -/
def addChild (child : Tree) : Tree → Tree
  | node b ts => node b (ts ++ [child])

mutual

/-- The tree with `f` applied to every block. -/
def map (f : Block → Block) : Tree → Tree
  | node b ts => node (f b) (mapAll f ts)

/-- The siblings with `f` applied to every block. -/
def mapAll (f : Block → Block) : List Tree → List Tree
  | [] => []
  | t :: ts => map f t :: mapAll f ts

end

/-! ## Equality -/

mutual

/-- Whether two trees have the same shape and blocks that are `Block.same`. -/
def same : Tree → Tree → Bool
  | node a ts, node b us => a.same b && sameAll ts us

/-- Whether two lists of siblings have the same shape and blocks that are `Block.same`. -/
def sameAll : List Tree → List Tree → Bool
  | [], [] => true
  | t :: ts, u :: us => same t u && sameAll ts us
  | _, _ => false

end

/-! ## Small laws -/

theorem preorderAll_append (depth : Nat) (ts us : List Tree) :
    preorderAll depth (ts ++ us) = preorderAll depth ts ++ preorderAll depth us := by
  induction ts with
  | nil => simp [preorderAll]
  | cons t ts ih => simp [preorderAll, ih]

theorem sizeAll_append (ts us : List Tree) : sizeAll (ts ++ us) = sizeAll ts + sizeAll us := by
  induction ts with
  | nil => simp [sizeAll]
  | cons t ts ih => simp [sizeAll, ih, Nat.add_assoc]

end Tree

end Blockwork
