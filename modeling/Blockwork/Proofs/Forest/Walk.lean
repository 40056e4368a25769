import Blockwork.Forest.Basic
import Blockwork.Proofs.Tree.Subtrees

/-!
# `Blockwork.Proofs.Forest.Walk`: what the walk visits

The walk is a machine with a stack of pending trees. At every moment what it has still to say is the
outlines of the pending trees, one after the other, each from its own depth; started on the roots it
says the outline of the forest.

## Contents
- `Cursor.toList_eq_flatMap`, the invariant of the machine, and `Forest.walk_eq_preorder`.
- `Forest.subtrees`, `blocks` and `ids`: what is inside a forest, in the order of the walk.
- `Forest.contains_iff` and the other questions about ids.
-/

namespace Blockwork

/-! ## The machine -/

theorem Tree.preorderAll_eq_flatMap (depth : Nat) (ts : List Tree) :
    preorderAll depth ts = ts.flatMap (preorder depth) := by
  induction ts with
  | nil => rfl
  | cons t ts ih => rw [preorderAll, List.flatMap_cons, ih]

/-- What the walk has still to say are the outlines of the pending trees. -/
theorem Cursor.toList_eq_flatMap (c : Cursor) :
    c.toList = c.pending.flatMap fun p => p.2.preorder p.1 := by
  fun_induction Cursor.toList c with
  | case1 c hnext =>
      obtain ⟨pending⟩ := c
      cases pending with
      | nil => rfl
      | cons p rest => exact absurd hnext (by simp [Cursor.next?])
  | case2 c e d hnext ih =>
      obtain ⟨pending⟩ := c
      cases pending with
      | nil => exact absurd hnext (by simp [Cursor.next?])
      | cons p rest =>
          obtain ⟨depth, t⟩ := p
          cases t with
          | node b us =>
              rw [Cursor.next?, Option.some.injEq, Prod.mk.injEq] at hnext
              obtain ⟨rfl, rfl⟩ := hnext
              -- The children are pending before the trees that already were.
              rw [ih, List.flatMap_append, List.flatMap_map, List.flatMap_cons, Tree.preorder,
                Tree.preorderAll_eq_flatMap]
              rfl

namespace Forest

/-- **The walk visits what the recursion visits, in the same order.** -/
theorem walk_eq_preorder (f : Forest) : f.walk = f.preorder := by
  rw [walk, Cursor.toList_eq_flatMap, Cursor.ofRoots, List.flatMap_map, preorder,
    Tree.preorderAll_eq_flatMap]

/-! ## What is inside a forest -/

/-- Every tree of the forest with the trees inside it. -/
def subtrees (f : Forest) : List Tree :=
  Tree.subtreesAll f.roots

/-- Every block. -/
def blocks (f : Forest) : List Block :=
  Tree.blocksAll f.roots

/-- The ids of all blocks. -/
def ids (f : Forest) : List BlockId :=
  Tree.idsAll f.roots

theorem map_snd_walk (f : Forest) : f.walk.map Prod.snd = f.blocks := by
  rw [walk_eq_preorder, preorder, Tree.map_snd_preorderAll]
  rfl

theorem map_id_walk (f : Forest) : f.walk.map (·.2.id) = f.ids := by
  rw [walk_eq_preorder, preorder, Tree.map_id_preorderAll]
  rfl

theorem map_id_blocks (f : Forest) : f.blocks.map Block.id = f.ids :=
  Tree.map_id_blocksAll f.roots

theorem length_ids (f : Forest) : f.ids.length = f.size :=
  Tree.length_idsAll f.roots

theorem length_walk (f : Forest) : f.walk.length = f.size := by
  rw [← length_ids, ← map_id_walk, List.length_map]

theorem find?_eq_none_iff {f : Forest} {id : BlockId} : f.find? id = none ↔ id ∉ f.ids :=
  Tree.findAll?_eq_none_iff

theorem contains_iff {f : Forest} {id : BlockId} : f.contains id = true ↔ id ∈ f.ids := by
  rw [contains, Option.isSome_iff_ne_none, ne_eq, find?_eq_none_iff, not_not]

theorem mem_ids_of_mem_subtrees {f : Forest} {t : Tree} (h : t ∈ f.subtrees) : t.id ∈ f.ids :=
  List.mem_map_of_mem h

end Forest

end Blockwork
