import Blockwork.Forest.Tree
import Mathlib.Data.List.Nodup

/-!
# `Blockwork.Proofs.Tree.Subtrees`: the trees inside a list of siblings

Every function on trees comes as a pair, one half for a tree and one for siblings. The induction
here runs over siblings alone: a list of siblings is empty, or it is a block with its content,
followed by siblings. So each fact about trees is one induction with two hypotheses, one for the
content and one for what follows.

## Contents
- `siblingInduction`, that induction; `childrenInduction`, one over trees.
- `subtreesAll`, every tree inside some siblings in the order of the walk, with `blocksAll` and
  `idsAll`; how `preorderAll` and `sizeAll` say the same.
- `mem_subtreesAll_cases`, `mem_subtreesAll_of_mem_below`: where a tree stands.
- `preorderAll_shift` and `le_depth_of_mem_preorderAll`: what the depths of a walk are.
- `eq_of_id_eq` and `id_notMem_of_mem`: where ids are distinct, an id belongs to one tree, and no block
  stands inside itself.
- `findAll?_eq_find?`: searching is searching the list of subtrees.
-/

namespace Blockwork.Tree

/-! ## Induction over siblings -/

/-- What holds of no trees, and of a block and the siblings after it if it holds of the block's
    content and of those siblings, holds of every list of siblings. -/
theorem siblingInduction {motive : List Tree → Prop} (nil : motive [])
    (cons : ∀ b us ts, motive us → motive ts → motive (node b us :: ts)) :
    ∀ ts, motive ts
  | [] => nil
  | node b us :: ts =>
      cons b us ts (siblingInduction nil cons us) (siblingInduction nil cons ts)

/-- What holds of a block with its content if it holds of each tree in the content, holds of every
    tree. -/
theorem childrenInduction {motive : Tree → Prop}
    (node : ∀ b ts, (∀ t ∈ ts, motive t) → motive (node b ts)) (t : Tree) : motive t := by
  have hall : ∀ ts : List Tree, ∀ u ∈ ts, motive u := by
    intro ts
    induction ts using siblingInduction with
    | nil => exact fun u hu => absurd hu List.not_mem_nil
    | cons b us ts ihUs ihTs => exact List.forall_mem_cons.mpr ⟨node b us ihUs, ihTs⟩
  exact hall [t] t List.mem_cons_self

/-! ## Subtrees -/

mutual

/-- The trees inside a tree in the order of the walk, the tree itself first. -/
def subtrees : Tree → List Tree
  | node b ts => node b ts :: subtreesAll ts

/-- The trees inside a list of siblings, the siblings included. -/
def subtreesAll : List Tree → List Tree
  | [] => []
  | t :: ts => subtrees t ++ subtreesAll ts

end

/-- The blocks inside a list of siblings. -/
def blocksAll (ts : List Tree) : List Block :=
  (subtreesAll ts).map block

/-- The ids inside a list of siblings. -/
def idsAll (ts : List Tree) : List BlockId :=
  (subtreesAll ts).map id

theorem subtreesAll_nil : subtreesAll [] = [] := by
  rw [subtreesAll]

theorem subtreesAll_cons (b : Block) (us ts : List Tree) :
    subtreesAll (node b us :: ts) = node b us :: (subtreesAll us ++ subtreesAll ts) := by
  rw [subtreesAll, subtrees, List.cons_append]

theorem subtreesAll_singleton (t : Tree) : subtreesAll [t] = t.subtrees := by
  rw [subtreesAll, subtreesAll_nil, List.append_nil]

theorem subtreesAll_append (ts us : List Tree) :
    subtreesAll (ts ++ us) = subtreesAll ts ++ subtreesAll us := by
  induction ts with
  | nil => rw [subtreesAll_nil, List.nil_append, List.nil_append]
  | cons t ts ih => rw [List.cons_append, subtreesAll, subtreesAll, ih, List.append_assoc]

theorem subtreesAll_eq_flatMap (ts : List Tree) : subtreesAll ts = ts.flatMap subtrees := by
  induction ts with
  | nil => rw [subtreesAll_nil, List.flatMap_nil]
  | cons t ts ih => rw [subtreesAll, ih, List.flatMap_cons]

@[simp] theorem blocksAll_nil : blocksAll [] = [] := by
  rw [blocksAll, subtreesAll_nil, List.map_nil]

@[simp] theorem blocksAll_cons (b : Block) (us ts : List Tree) :
    blocksAll (node b us :: ts) = b :: (blocksAll us ++ blocksAll ts) := by
  rw [blocksAll, subtreesAll_cons, List.map_cons, List.map_append]
  rfl

@[simp] theorem blocksAll_append (ts us : List Tree) :
    blocksAll (ts ++ us) = blocksAll ts ++ blocksAll us := by
  rw [blocksAll, subtreesAll_append, List.map_append]
  rfl

@[simp] theorem idsAll_nil : idsAll [] = [] := by
  rw [idsAll, subtreesAll_nil, List.map_nil]

@[simp] theorem idsAll_cons (b : Block) (us ts : List Tree) :
    idsAll (node b us :: ts) = b.id :: (idsAll us ++ idsAll ts) := by
  rw [idsAll, subtreesAll_cons, List.map_cons, List.map_append]
  rfl

@[simp] theorem idsAll_append (ts us : List Tree) : idsAll (ts ++ us) = idsAll ts ++ idsAll us := by
  rw [idsAll, subtreesAll_append, List.map_append]
  rfl

theorem map_id_blocksAll (ts : List Tree) : (blocksAll ts).map Block.id = idsAll ts := by
  rw [blocksAll, idsAll, List.map_map]
  rfl

/-- A sibling is one of the subtrees. -/
theorem mem_subtreesAll_of_mem {t : Tree} {ts : List Tree} (h : t ∈ ts) : t ∈ subtreesAll ts := by
  induction ts with
  | nil => exact absurd h (by simp)
  | cons u ts ih =>
      rw [subtreesAll, List.mem_append]
      rcases List.mem_cons.mp h with rfl | h
      · cases t
        rw [subtrees]
        exact Or.inl List.mem_cons_self
      · exact Or.inr (ih h)

section Places

variable {t u : Tree} {ts : List Tree}

/-- What stands inside some siblings is one of them, or right below another tree inside them. -/
theorem mem_subtreesAll_cases (h : t ∈ subtreesAll ts) : t ∈ ts ∨ ∃ u ∈ subtreesAll ts, t ∈ u.children := by
  induction ts using siblingInduction with
  | nil => exact absurd h (by simp [subtreesAll])
  | cons b us ts ihUs ihTs =>
      rw [subtreesAll_cons, List.mem_cons, List.mem_append] at h
      rw [subtreesAll_cons]
      rcases h with rfl | h | h
      · exact Or.inl List.mem_cons_self
      · rcases ihUs h with hmem | ⟨u, hu, hmem⟩
        · exact Or.inr ⟨node b us, List.mem_cons_self, hmem⟩
        · exact Or.inr ⟨u, List.mem_cons_of_mem _ (List.mem_append_left _ hu), hmem⟩
      · rcases ihTs h with hmem | ⟨u, hu, hmem⟩
        · exact Or.inl (List.mem_cons_of_mem _ hmem)
        · exact Or.inr ⟨u, List.mem_cons_of_mem _ (List.mem_append_right _ hu), hmem⟩

/-- What stands below a tree inside some siblings stands inside them. -/
theorem mem_subtreesAll_of_mem_below (ht : t ∈ subtreesAll ts) (hu : u ∈ subtreesAll t.children) :
    u ∈ subtreesAll ts := by
  induction ts using siblingInduction with
  | nil => exact absurd ht (by simp [subtreesAll])
  | cons b us ts ihUs ihTs =>
      rw [subtreesAll_cons, List.mem_cons, List.mem_append] at ht ⊢
      rcases ht with rfl | ht | ht
      · exact Or.inr (Or.inl hu)
      · exact Or.inr (Or.inl (ihUs ht))
      · exact Or.inr (Or.inr (ihTs ht))

theorem mem_subtreesAll_of_mem_subtrees (ht : t ∈ subtreesAll ts) (hu : u ∈ t.subtrees) :
    u ∈ subtreesAll ts := by
  cases t with
  | node b us =>
      rw [subtrees, List.mem_cons] at hu
      rcases hu with rfl | hu
      · exact ht
      · exact mem_subtreesAll_of_mem_below ht hu

end Places

/-! ## The walk -/

theorem preorderAll_cons (depth : Nat) (b : Block) (us ts : List Tree) :
    preorderAll depth (node b us :: ts)
      = (depth, b) :: (preorderAll (depth + 1) us ++ preorderAll depth ts) := by
  rw [preorderAll, preorder, List.cons_append]

theorem preorderAll_singleton (depth : Nat) (t : Tree) :
    preorderAll depth [t] = t.preorder depth := by
  rw [preorderAll, preorderAll, List.append_nil]

/-- Without the depths the walk lists the blocks. -/
theorem map_snd_preorderAll (depth : Nat) (ts : List Tree) :
    (preorderAll depth ts).map Prod.snd = blocksAll ts := by
  induction ts using siblingInduction generalizing depth with
  | nil => rfl
  | cons b us ts ihUs ihTs =>
      rw [preorderAll_cons, blocksAll_cons, List.map_cons, List.map_append, ihUs, ihTs]

/-- Without the depths and all fields but the id the walk lists the ids. -/
theorem map_id_preorderAll (depth : Nat) (ts : List Tree) :
    (preorderAll depth ts).map (·.2.id) = idsAll ts := by
  rw [← map_id_blocksAll, ← map_snd_preorderAll depth, List.map_map]
  rfl

/-- No entry of a walk lies above the depth where the walk starts. -/
theorem le_depth_of_mem_preorderAll {depth : Nat} {ts : List Tree} {e : Nat × Block}
    (h : e ∈ preorderAll depth ts) : depth ≤ e.1 := by
  induction ts using siblingInduction generalizing depth with
  | nil => exact absurd h (by simp [preorderAll])
  | cons b us ts ihUs ihTs =>
      rw [preorderAll_cons, List.mem_cons, List.mem_append] at h
      rcases h with rfl | h | h
      · exact Nat.le_refl depth
      · exact Nat.le_of_succ_le (ihUs h)
      · exact ihTs h

/-- Starting deeper moves every entry down by as much. -/
theorem preorderAll_shift (depth k : Nat) (ts : List Tree) :
    preorderAll (depth + k) ts = (preorderAll depth ts).map fun e => (e.1 + k, e.2) := by
  induction ts using siblingInduction generalizing depth with
  | nil => rfl
  | cons b us ts ihUs ihTs =>
      have hdepth : depth + k + 1 = depth + 1 + k := Nat.add_right_comm depth k 1
      rw [preorderAll_cons, preorderAll_cons, hdepth, ihUs, ihTs, List.map_cons, List.map_append]

/-- The number of blocks is the number of subtrees. -/
theorem sizeAll_eq_length (ts : List Tree) : sizeAll ts = (subtreesAll ts).length := by
  induction ts using siblingInduction with
  | nil => rfl
  | cons b us ts ihUs ihTs =>
      rw [sizeAll, size, ihUs, ihTs, subtreesAll_cons, List.length_cons, List.length_append]
      omega

theorem length_idsAll (ts : List Tree) : (idsAll ts).length = sizeAll ts := by
  rw [idsAll, List.length_map, sizeAll_eq_length]

/-! ## Search -/

/-- The search through siblings goes through their subtrees in order. -/
theorem findAll?_eq_find? (id : BlockId) (ts : List Tree) :
    findAll? id ts = (subtreesAll ts).find? (·.id = id) := by
  induction ts using siblingInduction with
  | nil => rfl
  | cons b us ts ihUs ihTs =>
      rw [findAll?, find?, subtreesAll_cons, List.find?_cons, List.find?_append, ← ihUs, ← ihTs]
      by_cases hid : b.id = id
      · rw [if_pos hid]
        simp [Tree.id, hid]
      · rw [if_neg hid]
        simp only [Tree.id, block_node, hid, decide_false]
        cases findAll? id us with
        | none => rfl
        | some t => rfl

theorem find?_eq_find? (id : BlockId) (t : Tree) : t.find? id = t.subtrees.find? (·.id = id) := by
  rw [← subtreesAll_singleton, ← findAll?_eq_find?, findAll?, findAll?]
  cases t.find? id with
  | none => rfl
  | some u => rfl

/-- A search fails exactly if the id is absent. -/
theorem findAll?_eq_none_iff {id : BlockId} {ts : List Tree} :
    findAll? id ts = none ↔ id ∉ idsAll ts := by
  rw [findAll?_eq_find?, List.find?_eq_none, idsAll]
  simp

/-- What a search finds is a subtree with the id. -/
theorem mem_of_findAll?_eq_some {id : BlockId} {ts : List Tree} {t : Tree}
    (h : findAll? id ts = some t) : t ∈ subtreesAll ts ∧ t.id = id := by
  rw [findAll?_eq_find?] at h
  exact ⟨List.mem_of_find?_eq_some h, by simpa using List.find?_some h⟩

/-- A tree contains the ids of its subtrees. -/
theorem contains_iff {t : Tree} {id : BlockId} :
    t.contains id = true ↔ id ∈ t.subtrees.map Tree.id := by
  rw [contains, find?_eq_find?, List.find?_isSome, List.mem_map]
  simp

theorem contains_eq_false_iff {t : Tree} {id : BlockId} :
    t.contains id = false ↔ id ∉ t.subtrees.map Tree.id := by
  rw [← Bool.not_eq_true, contains_iff]

/-- Where ids are distinct, subtrees with the same id are the same subtree. -/
theorem eq_of_id_eq {ts : List Tree} (hids : (idsAll ts).Nodup) {t u : Tree}
    (ht : t ∈ subtreesAll ts) (hu : u ∈ subtreesAll ts) (h : t.id = u.id) : t = u :=
  List.inj_on_of_nodup_map hids ht hu h

/-- Where ids are distinct, no block stands inside itself. -/
theorem id_notMem_of_mem (hids : (idsAll ts).Nodup) {t : Tree} (h : t ∈ subtreesAll ts) :
    t.id ∉ idsAll t.children := by
  induction ts using siblingInduction with
  | nil => exact absurd h (by simp [subtreesAll])
  | cons b us ts ihUs ihTs =>
      rw [idsAll_cons, List.nodup_cons, List.mem_append, not_or, List.nodup_append] at hids
      rw [subtreesAll_cons, List.mem_cons, List.mem_append] at h
      rcases h with rfl | h | h
      · exact hids.1.1
      · exact ihUs hids.2.1 h
      · exact ihTs hids.2.2.1 h

/-- Where ids are distinct, a search finds the subtree with the id. -/
theorem findAll?_eq_some_iff {id : BlockId} {ts : List Tree} (hids : (idsAll ts).Nodup) {t : Tree} :
    findAll? id ts = some t ↔ t ∈ subtreesAll ts ∧ t.id = id := by
  refine ⟨mem_of_findAll?_eq_some, ?_⟩
  rintro ⟨ht, hid⟩
  cases hfound : findAll? id ts with
  | none =>
      rw [findAll?_eq_none_iff] at hfound
      exact absurd (hid ▸ List.mem_map_of_mem ht) hfound
  | some u =>
      obtain ⟨hu, huid⟩ := mem_of_findAll?_eq_some hfound
      rw [eq_of_id_eq hids hu ht (huid.trans hid.symm)]

end Blockwork.Tree
