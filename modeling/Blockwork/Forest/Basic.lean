import Blockwork.Forest.Serial
import Blockwork.Forest.Tree

/-!
# `Blockwork.Forest.Basic`: all blocks of the canvas

A forest is the ordered list of top-level trees together with the serial of the next id.

## Contents
- `Forest`, `empty`, `ofTrees`: loading fills in defaults and continues after the largest serial.
- `size`, `find?`, `contains`, `topLevel`, `preorder`.
- `Cursor`, the walk as a machine with a stack of pending trees, and `Forest.walk`.
- `allocate`, a new id.
- `same`, equality up to numeric equality of numbers.
-/

namespace Blockwork

/-! ## The walk as a machine -/

/-- The trees still to be visited, each with its depth, the next one first. -/
structure Cursor where
  pending : List (Nat × Tree)

namespace Cursor

/-- A walk over top-level trees. -/
def ofRoots (roots : List Tree) : Cursor :=
  ⟨roots.map fun t => (0, t)⟩

/-- How many blocks are still to come. -/
def size (c : Cursor) : Nat :=
  Tree.sizeAll (c.pending.map Prod.snd)

/-- The next block and the walk after it. The content of a block comes before what was pending. -/
def next? (c : Cursor) : Option ((Nat × Block) × Cursor) :=
  match c.pending with
  | [] => none
  | (depth, t) :: rest =>
    some ((depth, t.block), ⟨t.children.map (fun child => (depth + 1, child)) ++ rest⟩)

theorem size_next {c d : Cursor} {e : Nat × Block} (h : c.next? = some (e, d)) :
    d.size < c.size := by
  obtain ⟨pending⟩ := c
  cases pending with
  | nil => simp [next?] at h
  | cons head rest =>
    obtain ⟨depth, t⟩ := head
    cases t with
    | node b ts =>
      simp only [next?, Tree.block_node, Tree.children_node, Option.some.injEq, Prod.mk.injEq] at h
      obtain ⟨-, rfl⟩ := h
      have hmap : (ts.map fun child => (depth + 1, child)).map Prod.snd = ts := by
        simp [Function.comp_def]
      simp only [size, List.map_append, hmap, Tree.sizeAll_append, List.map_cons, Tree.sizeAll,
        Tree.size]
      omega

/-- The blocks still to come, in order. -/
def toList (c : Cursor) : List (Nat × Block) :=
  match _h : c.next? with
  | none => []
  | some (e, d) => e :: toList d
termination_by c.size
decreasing_by exact size_next _h

end Cursor

/-! ## Forests -/

/-- The top-level trees, in order, and the serial of the next id. -/
structure Forest where
  roots : List Tree
  nextSerial : UInt64

namespace Forest

/-- No blocks. -/
def empty : Forest :=
  ⟨[], 1⟩

instance : Inhabited Forest := ⟨empty⟩

/-- Every block with its depth, outermost first. -/
def preorder (f : Forest) : List (Nat × Block) :=
  Tree.preorderAll 0 f.roots

/-- Every block with its depth, as the walk visits them. -/
def walk (f : Forest) : List (Nat × Block) :=
  (Cursor.ofRoots f.roots).toList

/-- How many blocks there are, at all depths. -/
def size (f : Forest) : Nat :=
  Tree.sizeAll f.roots

/-- The first tree, in the order of the walk, whose root has a given id. -/
def find? (f : Forest) (id : BlockId) : Option Tree :=
  Tree.findAll? id f.roots

/-- Whether some block has a given id. -/
def contains (f : Forest) (id : BlockId) : Bool :=
  (f.find? id).isSome

/-- The roots that claim no parent, in order. -/
def topLevel (f : Forest) : List Tree :=
  f.roots.filter (·.block.parent.isNone)

/-! ## Loading -/

/-- The largest serial among the ids, zero if none has one. -/
def largestSerial (roots : List Tree) : UInt64 :=
  ((Cursor.ofRoots roots).toList.filterMap fun (_, b) => Serial.serial? b.id).foldl max 0

/-- The forest of some trees: every default is written out, and new ids continue after the largest
serial present. -/
def ofTrees (roots : List Tree) : Forest :=
  let filled := Tree.mapAll Block.fill roots
  let last := largestSerial filled
  { roots := filled
    nextSerial := if last = Serial.largest then last else last + 1 }

/-! ## New ids -/

/-- The first serial, counting on from `s` over at most `tries` taken ones, whose id with `name` is
not present. -/
def freshSerial (f : Forest) (name : String) : Nat → UInt64 → UInt64
  | 0, s => s
  | tries + 1, s =>
    if f.contains (Serial.idOf name s) then freshSerial f name tries (Serial.nextSerial s) else s

/-- A new id for a block of type `name`, and the forest that will not hand it out again. As many
taken ids as there are blocks can be in the way. -/
def allocate (f : Forest) (name : String) : BlockId × Forest :=
  let s := f.freshSerial name f.size f.nextSerial
  (Serial.idOf name s, { f with nextSerial := Serial.nextSerial s })

/-! ## Equality -/

/-- Whether two forests are equal, serial counter included, numbers being compared numerically. -/
def same (f g : Forest) : Bool :=
  Tree.sameAll f.roots g.roots && f.nextSerial == g.nextSerial

end Forest

end Blockwork
