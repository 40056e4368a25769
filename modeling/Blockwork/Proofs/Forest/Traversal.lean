import Blockwork.Proofs.Forest.Walk
import Blockwork.Source.Stats

/-!
# `Blockwork.Proofs.Forest.Traversal`: the walk agrees with the recursions

The walk takes one tree at a time from a stack and puts its content there instead. A recursion that answers
something for a block and then goes through the content answers, for the trees on the stack, one thing more
than for the stack a step later; so after `k` steps the `k`-th answer is the one for the tree on top. Order,
size, search, height and the counts over a forest are read off the walk in this way.

## Contents
- `Cursor.stack`, the stack with its top at the end, and `Cursor.next?_eq_some_iff`: what a step does to it.
- `Cursor.after`, and `Cursor.head?_after`: what is on top after some steps.
- `Cursor.Visits`: what a walk answers, call by call.
- `Tree.countP_preorderAll` and `Tree.foldl_max_preorderAll`: what depths say about siblings and height.
- `Forest.find?_walk`, the first block with an id.
- `Forest.WalkAgrees` and `Forest.walk_agrees`.
-/

namespace Blockwork

/-! ## The stack -/

namespace Cursor

/-- The pending trees as a stack, the next one at its end. -/
def stack (c : Cursor) : List (Nat × Tree) :=
  c.pending.reverse

/-- The roots are put on the stack from the last one to the first. -/
theorem stack_ofRoots (roots : List Tree) :
    (ofRoots roots).stack = roots.reverse.map fun t => (0, t) := by
  rw [stack, ofRoots, List.map_reverse]

/-- **A step takes the tree at the end of the stack**, answers its block and puts its children there, from
    the last one to the first. -/
theorem next?_eq_some_iff {c d : Cursor} {e : Nat × Block} :
    c.next? = some (e, d) ↔ ∃ rest depth t, c.stack = rest ++ [(depth, t)] ∧ e = (depth, t.block) ∧
      d.stack = rest ++ t.children.reverse.map fun u => (depth + 1, u) := by
  obtain ⟨pending⟩ := c
  obtain ⟨pending'⟩ := d
  constructor
  · intro h
    cases pending with
    | nil => exact absurd h (by simp [next?])
    | cons p rest =>
        obtain ⟨depth, t⟩ := p
        rw [next?, Option.some.injEq, Prod.mk.injEq, Cursor.mk.injEq] at h
        obtain ⟨rfl, rfl⟩ := h
        exact ⟨rest.reverse, depth, t, List.reverse_cons, rfl, by simp [stack, List.map_reverse]⟩
  · rintro ⟨rest, depth, t, hstack, rfl, hstack'⟩
    rw [stack, List.reverse_eq_iff, List.reverse_append, List.reverse_singleton,
      List.singleton_append] at hstack
    rw [stack, List.reverse_eq_iff, List.reverse_append, ← List.map_reverse, List.reverse_reverse] at hstack'
    obtain rfl : pending = _ := hstack
    obtain rfl : pending' = _ := hstack'
    rfl

/-! ## The walk, call by call -/

/-- The walk after `k` calls. -/
def after (c : Cursor) : Nat → Cursor
  | 0 => c
  | k + 1 =>
    match c.next? with
    | none => c
    | some (_, d) => d.after k

/-- The calls answer the entries of a list, in order; those after the last entry answer nothing. -/
def Visits (c : Cursor) (es : List (Nat × Block)) : Prop :=
  ∀ k, (c.after k).next?.map Prod.fst = es[k]?

variable {α : Type} {answers : Nat → Tree → List α} {answer : Nat → Tree → α}

/-- **A recursion that answers for a block and then goes through its content answers in the order of the
    walk**: its `k`-th answer is the one for the tree on top after `k` calls. -/
theorem head?_after
    (h : ∀ depth t, answers depth t = answer depth t :: t.children.flatMap (answers (depth + 1)))
    (c : Cursor) (k : Nat) :
    (c.after k).pending.head?.map (fun p => answer p.1 p.2)
      = (c.pending.flatMap fun p => answers p.1 p.2)[k]? := by
  -- Induction on the calls that are left, for the stack as it is before them.
  induction k generalizing c with
  | zero =>
      cases hpending : c.pending with
      | nil => simp [after, hpending]
      | cons p rest => simp [after, hpending, h p.1 p.2]
  | succ k ih =>
      obtain ⟨pending⟩ := c
      cases pending with
      | nil => rfl
      | cons p rest =>
          have hrest := ih ⟨p.2.children.map (fun u => (p.1 + 1, u)) ++ rest⟩
          rw [List.flatMap_append, List.flatMap_map] at hrest
          rw [List.flatMap_cons, h, List.cons_append, List.getElem?_cons_succ, ← hrest]
          rfl

end Cursor

namespace Tree

/-! ## What depths say -/

theorem subtrees_eq_flatMap (t : Tree) : t.subtrees = t :: t.children.flatMap subtrees := by
  cases t with
  | node b us => rw [subtrees, subtreesAll_eq_flatMap, children_node]

theorem preorder_eq_flatMap (depth : Nat) (t : Tree) :
    t.preorder depth = (depth, t.block) :: t.children.flatMap (preorder (depth + 1)) := by
  cases t with
  | node b us => rw [preorder, preorderAll_eq_flatMap, children_node, block_node]

/-- The entries at the depth where a walk starts are the siblings. -/
theorem countP_preorderAll (depth : Nat) (ts : List Tree) :
    (preorderAll depth ts).countP (·.1 = depth) = ts.length := by
  induction ts using siblingInduction with
  | nil => rfl
  | cons b us ts _ ihTs =>
      have hbelow : (preorderAll (depth + 1) us).countP (·.1 = depth) = 0 := by
        rw [List.countP_eq_zero]
        intro e he
        have hle := le_depth_of_mem_preorderAll he
        simp only [decide_eq_true_eq]
        omega
      rw [preorderAll_cons, List.countP_cons_of_pos (by simp), List.countP_append, hbelow, ihTs,
        Nat.zero_add, List.length_cons]

/-- The deepest entry of a walk lies as deep as the highest of the trees is high. -/
theorem foldl_max_preorderAll {depth deepest : Nat} (h : depth ≤ deepest) (ts : List Tree) :
    (preorderAll depth ts).foldl (fun deepest e => max deepest (e.1 + 1)) deepest
      = max deepest (depth + heightAll ts) := by
  -- What was deepest so far is at least the depth of the siblings, so no siblings change nothing.
  induction ts using siblingInduction generalizing depth deepest with
  | nil =>
      rw [preorderAll, List.foldl_nil, heightAll]
      omega
  | cons b us ts ihUs ihTs =>
      rw [preorderAll_cons, List.foldl_cons, List.foldl_append, ihUs (by omega), ihTs (by omega), heightAll,
        height]
      omega

theorem heightAll_eq_foldr (ts : List Tree) : heightAll ts = (ts.map height).foldr max 0 := by
  induction ts with
  | nil => rfl
  | cons t ts ih => rw [heightAll, ih, List.map_cons, List.foldr_cons]

end Tree

namespace Forest

variable (f : Forest)

/-! ## The walk of a forest -/

theorem visits_preorder : (Cursor.ofRoots f.roots).Visits f.preorder := by
  intro k
  have hentry := Cursor.head?_after Tree.preorder_eq_flatMap (Cursor.ofRoots f.roots) k
  rw [Cursor.ofRoots, List.flatMap_map, ← Tree.preorderAll_eq_flatMap] at hentry
  rw [preorder, ← hentry, Cursor.ofRoots]
  generalize Cursor.after ⟨f.roots.map fun t => (0, t)⟩ k = c
  obtain ⟨pending⟩ := c
  cases pending <;> rfl

/-- The trees on top of the stack, one after the other, are the subtrees. -/
theorem head?_after_ofRoots (k : Nat) :
    ((Cursor.ofRoots f.roots).after k).pending.head?.map Prod.snd = f.subtrees[k]? := by
  have hsubtrees : ∀ (_ : Nat) (t : Tree), t.subtrees = t :: t.children.flatMap Tree.subtrees :=
    fun _ => Tree.subtrees_eq_flatMap
  have htree := Cursor.head?_after hsubtrees (Cursor.ofRoots f.roots) k
  rw [Cursor.ofRoots, List.flatMap_map, ← Tree.subtreesAll_eq_flatMap] at htree
  exact htree

/-- The search finds the first block of the walk with an id. -/
theorem find?_walk (id : BlockId) :
    (f.find? id).map Tree.block = (f.walk.find? (·.2.id = id)).map Prod.snd := by
  have hblocks : f.blocks.find? (·.id = id) = (f.walk.find? (·.2.id = id)).map Prod.snd := by
    rw [← map_snd_walk, List.find?_map]
    rfl
  rw [← hblocks, find?, Tree.findAll?_eq_find?, blocks, Tree.blocksAll, List.find?_map]
  rfl

/-- How the walk and the recursions over a forest agree. The stack starts with the roots and a step does to
    it what `step` says. Its calls answer the recursive order of blocks and depths, with the subtrees on top
    of the stack in that order, and then nothing. The recursions for size, search and height, and the counts
    over the forest, are read off the walk. -/
structure WalkAgrees (f : Forest) : Prop where
  start : (Cursor.ofRoots f.roots).stack = f.roots.reverse.map fun t => (0, t)
  step : ∀ (c d : Cursor) (e : Nat × Block), c.next? = some (e, d) ↔
    ∃ rest depth t, c.stack = rest ++ [(depth, t)] ∧ e = (depth, t.block) ∧
      d.stack = rest ++ t.children.reverse.map fun u => (depth + 1, u)
  calls : (Cursor.ofRoots f.roots).Visits f.preorder
  onTop : ∀ k, ((Cursor.ofRoots f.roots).after k).pending.head?.map Prod.snd = f.subtrees[k]?
  walk : f.walk = f.preorder
  size : f.size = f.walk.length
  first : ∀ id, f.find? id = f.subtrees.find? (·.id = id)
  found : ∀ id, (f.find? id).map Tree.block = (f.walk.find? (·.2.id = id)).map Prod.snd
  absent : ∀ id, f.find? id = none ↔ id ∉ f.walk.map (·.2.id)
  blocks : f.stats.blocks = f.size
  collapsed : f.stats.collapsed = f.walk.countP (·.2.collapsed)
  topLevel : f.stats.topLevel = f.walk.countP (·.1 = 0)
  maxDepth : f.stats.maxDepth = (f.roots.map Tree.height).foldr max 0

/-- **The walk agrees with the recursions**, for every forest, valid or not. -/
theorem walk_agrees : WalkAgrees f where
  start := Cursor.stack_ofRoots f.roots
  step := fun _ _ _ => Cursor.next?_eq_some_iff
  calls := f.visits_preorder
  onTop := f.head?_after_ofRoots
  walk := f.walk_eq_preorder
  size := f.length_walk.symm
  first := fun id => Tree.findAll?_eq_find? id f.roots
  found := f.find?_walk
  absent := fun id => by rw [find?_eq_none_iff, map_id_walk]
  blocks := f.length_walk
  collapsed := rfl
  topLevel := by
    rw [walk_eq_preorder, preorder, Tree.countP_preorderAll]
    rfl
  maxDepth := by
    rw [stats, walk_eq_preorder, preorder]
    simp only [Tree.foldl_max_preorderAll (Nat.le_refl 0), Tree.heightAll_eq_foldr, Nat.zero_add,
      Nat.zero_max]

end Forest

end Blockwork
