import Blockwork.Edit.Operations
import Blockwork.Proofs.Tree.Splice

/-!
# `Blockwork.Proofs.Tree.Replaced`: cutting and changing without a search

A cut takes out the first tree with an id that its search meets, a change alters the first one that
its own search meets. Where ids are distinct there is one such tree, and it does not matter who meets
it: each edit is a replacement of every tree with the id, wherever it stands. `replaceAll` is that
replacement. It does not search and cannot fail, so what several edits in a row come to is computed
from its equations.

## Contents
- `replaceAll`, with `removeAll` and `changeAll`, `replaceAll_of_notMem`, `notMem_idsAll_removeAll` and
  `map_id_changeAll`.
- `Splice.eq_replaceAll`: a splice at a distinct id is a replacement.
- `cut?_eq` and `modifyIn?_eq`, the two searches as replacements.
- `removeAll_comm`, `removeAll_removeAll`, `removeAll_changeAll_addChild`, `changeAll_removeAll`: what
  replacements come to one after the other.
-/

namespace Blockwork.Tree

/-! ## Replacements -/

mutual

/-- A tree in which every tree with a given id gives way to what `new` makes of it. -/
def replace (id : BlockId) (new : Tree → List Tree) : Tree → List Tree
  | node b us =>
    if b.id = id then new (node b (replaceAll id new us)) else [node b (replaceAll id new us)]

/-- Siblings in which every tree with a given id, at any depth, gives way to what `new` makes of
    it. -/
def replaceAll (id : BlockId) (new : Tree → List Tree) : List Tree → List Tree
  | [] => []
  | t :: ts => replace id new t ++ replaceAll id new ts

end

/-- The siblings without the trees, at any depth, that have a given id. -/
def removeAll (id : BlockId) : List Tree → List Tree :=
  replaceAll id fun _ => []

/-- The siblings with `f` applied to the trees, at any depth, that have a given id. -/
def changeAll (id : BlockId) (f : Tree → Tree) : List Tree → List Tree :=
  replaceAll id fun t => [f t]

variable {id : BlockId} {new : Tree → List Tree} {f : Tree → Tree} {b : Block} {us ts ts' : List Tree}

@[simp] theorem replaceAll_nil : replaceAll id new [] = [] := by
  rw [replaceAll]

theorem replaceAll_cons_of_eq (h : b.id = id) (us ts : List Tree) :
    replaceAll id new (node b us :: ts) = new (node b (replaceAll id new us)) ++ replaceAll id new ts := by
  rw [replaceAll, replace, if_pos h]

theorem replaceAll_cons_of_ne (h : b.id ≠ id) (us ts : List Tree) :
    replaceAll id new (node b us :: ts) = node b (replaceAll id new us) :: replaceAll id new ts := by
  rw [replaceAll, replace, if_neg h, List.singleton_append]

theorem replaceAll_append (us ts : List Tree) :
    replaceAll id new (us ++ ts) = replaceAll id new us ++ replaceAll id new ts := by
  induction us with
  | nil => rw [replaceAll_nil, List.nil_append, List.nil_append]
  | cons u us ih => rw [List.cons_append, replaceAll, replaceAll, ih, List.append_assoc]

/-- Nothing gives way to an id that is absent. -/
theorem replaceAll_of_notMem (h : id ∉ idsAll ts) : replaceAll id new ts = ts := by
  induction ts using siblingInduction with
  | nil => exact replaceAll_nil
  | cons b us ts ihUs ihTs =>
      rw [idsAll_cons, List.mem_cons, List.mem_append, not_or, not_or] at h
      rw [replaceAll_cons_of_ne (fun he => h.1 he.symm), ihUs h.2.1, ihTs h.2.2]

theorem removeAll_nil (id : BlockId) : removeAll id [] = [] :=
  replaceAll_nil

theorem removeAll_cons_of_eq (h : b.id = id) (us ts : List Tree) :
    removeAll id (node b us :: ts) = removeAll id ts :=
  replaceAll_cons_of_eq h us ts

theorem removeAll_cons_of_ne (h : b.id ≠ id) (us ts : List Tree) :
    removeAll id (node b us :: ts) = node b (removeAll id us) :: removeAll id ts :=
  replaceAll_cons_of_ne h us ts

theorem removeAll_of_notMem (h : id ∉ idsAll ts) : removeAll id ts = ts :=
  replaceAll_of_notMem h

theorem removeAll_append (us ts : List Tree) :
    removeAll id (us ++ ts) = removeAll id us ++ removeAll id ts :=
  replaceAll_append us ts

theorem removeAll_singleton (t : Tree) : removeAll t.id [t] = [] := by
  cases t with
  | node b us => exact (removeAll_cons_of_eq rfl us []).trans (removeAll_nil _)

theorem changeAll_nil (id : BlockId) (f : Tree → Tree) : changeAll id f [] = [] :=
  replaceAll_nil

theorem changeAll_cons_of_eq (h : b.id = id) (us ts : List Tree) :
    changeAll id f (node b us :: ts) = f (node b (changeAll id f us)) :: changeAll id f ts :=
  replaceAll_cons_of_eq h us ts

theorem changeAll_cons_of_ne (h : b.id ≠ id) (us ts : List Tree) :
    changeAll id f (node b us :: ts) = node b (changeAll id f us) :: changeAll id f ts :=
  replaceAll_cons_of_ne h us ts

theorem changeAll_of_notMem (h : id ∉ idsAll ts) : changeAll id f ts = ts :=
  replaceAll_of_notMem h

/-- A change of the root alone is a change of blocks. -/
theorem changeAll_mapRoot (id : BlockId) (f : Block → Block) (ts : List Tree) :
    changeAll id (mapRoot f) ts = mapAll (fun b => if b.id = id then f b else b) ts := by
  induction ts using siblingInduction with
  | nil => rw [changeAll_nil, mapAll]
  | cons b us ts ihUs ihTs =>
      rw [mapAll, map, ← ihUs, ← ihTs]
      by_cases h : b.id = id
      · rw [changeAll_cons_of_eq h, if_pos h, mapRoot]
      · rw [changeAll_cons_of_ne h, if_neg h]

/-- What was removed is gone at every depth. -/
theorem notMem_idsAll_removeAll (id : BlockId) (ts : List Tree) : id ∉ idsAll (removeAll id ts) := by
  induction ts using siblingInduction with
  | nil =>
      rw [removeAll_nil, idsAll_nil]
      exact List.not_mem_nil
  | cons b us ts ihUs ihTs =>
      by_cases h : b.id = id
      · rwa [removeAll_cons_of_eq h]
      · rw [removeAll_cons_of_ne h, idsAll_cons, List.mem_cons, List.mem_append, not_or, not_or]
        exact ⟨fun he => h he.symm, ihUs, ihTs⟩

/-- A change that keeps the id of the tree keeps the ids of the siblings. -/
theorem map_id_changeAll (hf : ∀ t, (f t).id = t.id)
    (ts : List Tree) : (changeAll id f ts).map Tree.id = ts.map Tree.id := by
  induction ts with
  | nil => rw [changeAll_nil]
  | cons t ts ih =>
      cases t with
      | node b us =>
          by_cases h : b.id = id
          · rw [changeAll_cons_of_eq h, List.map_cons, hf, ih]
            rfl
          · rw [changeAll_cons_of_ne h, List.map_cons, ih]
            rfl

/-! ## Searches are replacements -/

/-- **A splice at a distinct id is a replacement.** -/
theorem Splice.eq_replaceAll {t : Tree} (h : Splice [t] (new t) ts ts') (hids : (idsAll ts).Nodup) :
    ts' = replaceAll t.id new ts := by
  induction h with
  | here after =>
      cases t with
      | node b us =>
          rw [List.singleton_append, idsAll_cons, List.nodup_cons, List.mem_append, not_or] at hids
          have hid : b.id = (node b us).id := rfl
          rw [List.singleton_append, replaceAll_cons_of_eq hid, ← hid,
            replaceAll_of_notMem hids.1.1, replaceAll_of_notMem hids.1.2]
  | @next u us us' hsplice ih =>
      rw [← List.singleton_append, idsAll_append, List.nodup_append] at hids
      -- The id is met among the siblings after `u`, so `u` has nothing with it.
      have hmem : t.id ∈ idsAll us := List.mem_map_of_mem (hsplice.mem_subtreesAll List.mem_cons_self)
      have hu : t.id ∉ idsAll [u] := fun hu => hids.2.2 _ hu _ hmem rfl
      calc u :: us' = replaceAll t.id new [u] ++ replaceAll t.id new us := by
            rw [replaceAll_of_notMem hu, ← ih hids.2.1, List.singleton_append]
        _ = replaceAll t.id new (u :: us) := by rw [← replaceAll_append, List.singleton_append]
  | @inside b after us us' hsplice ih =>
      rw [idsAll_cons, List.nodup_cons, List.mem_append, not_or, List.nodup_append] at hids
      have hmem : t.id ∈ idsAll us := List.mem_map_of_mem (hsplice.mem_subtreesAll List.mem_cons_self)
      have hb : b.id ≠ t.id := fun he => hids.1.1 (he ▸ hmem)
      have hafter : t.id ∉ idsAll after := fun hafter => hids.2.2.2 _ hmem _ hafter rfl
      rw [replaceAll_cons_of_ne hb, replaceAll_of_notMem hafter, ih hids.2.1]

theorem Splice.eq_changeAll {t : Tree} (h : Splice [t] [f t] ts ts') (hids : (idsAll ts).Nodup) :
    ts' = changeAll t.id f ts := by
  rw [changeAll]
  exact Splice.eq_replaceAll h hids

/-- **A cut removes the tree that a search finds.** -/
theorem cut?_eq (hids : (idsAll ts).Nodup) :
    cut? id ts = (findAll? id ts).map fun t => (t, removeAll id ts) := by
  cases hcut : cut? id ts with
  | none => rw [findAll?_eq_none_iff.mpr (cut?_eq_none_iff.mp hcut), Option.map_none]
  | some r =>
      obtain ⟨t, rest⟩ := r
      obtain ⟨rfl, hsplice⟩ := cut?_splice hcut
      have hfind : findAll? t.id ts = some t :=
        (findAll?_eq_some_iff hids).mpr ⟨hsplice.mem_subtreesAll List.mem_cons_self, rfl⟩
      have hrest : rest = removeAll t.id ts := hsplice.eq_replaceAll hids
      rw [hfind, Option.map_some, hrest]

/-- **A change alters the tree with the id.** -/
theorem modifyIn?_eq (hids : (idsAll ts).Nodup) (h : id ∈ idsAll ts) :
    modifyIn? id f ts = some (changeAll id f ts) := by
  cases hmodify : modifyIn? id f ts with
  | none => exact absurd h (modifyIn?_eq_none_iff.mp hmodify)
  | some ts' =>
      obtain ⟨t, rfl, hsplice⟩ := modifyIn?_splice hmodify
      rw [hsplice.eq_changeAll hids]

/-! ## One replacement after another -/

/-- Two removals may change places, whether or not one tree holds the other. -/
theorem removeAll_comm (i j : BlockId) (ts : List Tree) :
    removeAll i (removeAll j ts) = removeAll j (removeAll i ts) := by
  induction ts using siblingInduction with
  | nil => rw [removeAll_nil, removeAll_nil, removeAll_nil]
  | cons b us ts ihUs ihTs =>
      by_cases hi : b.id = i
      · by_cases hj : b.id = j
        · rw [removeAll_cons_of_eq hi, removeAll_cons_of_eq hj, ihTs]
        · rw [removeAll_cons_of_eq hi, removeAll_cons_of_ne hj, removeAll_cons_of_eq hi, ihTs]
      · by_cases hj : b.id = j
        · rw [removeAll_cons_of_ne hi, removeAll_cons_of_eq hj, removeAll_cons_of_eq hj, ihTs]
        · rw [removeAll_cons_of_ne hi, removeAll_cons_of_ne hj, removeAll_cons_of_ne hi,
            removeAll_cons_of_ne hj, ihUs, ihTs]

theorem removeAll_removeAll (id : BlockId) (ts : List Tree) :
    removeAll id (removeAll id ts) = removeAll id ts := by
  induction ts using siblingInduction with
  | nil => rw [removeAll_nil, removeAll_nil]
  | cons b us ts ihUs ihTs =>
      by_cases h : b.id = id
      · rw [removeAll_cons_of_eq h, ihTs]
      · rw [removeAll_cons_of_ne h, removeAll_cons_of_ne h, ihUs, ihTs]

/-- **What was put in comes out again**, wherever it was put. -/
theorem removeAll_changeAll_addChild (parent : BlockId) (child : Tree) (ts : List Tree) :
    removeAll child.id (changeAll parent (addChild child) ts) = removeAll child.id ts := by
  induction ts using siblingInduction with
  | nil => rw [changeAll_nil]
  | cons b us ts ihUs ihTs =>
      by_cases hparent : b.id = parent
      · rw [changeAll_cons_of_eq hparent, addChild]
        by_cases hchild : b.id = child.id
        · rw [removeAll_cons_of_eq hchild, removeAll_cons_of_eq hchild, ihTs]
        · have hcontent : removeAll child.id (changeAll parent (addChild child) us ++ [child])
              = removeAll child.id us := by
            rw [removeAll_append, ihUs, removeAll_singleton, List.append_nil]
          rw [removeAll_cons_of_ne hchild, removeAll_cons_of_ne hchild, hcontent, ihTs]
      · rw [changeAll_cons_of_ne hparent]
        by_cases hchild : b.id = child.id
        · rw [removeAll_cons_of_eq hchild, removeAll_cons_of_eq hchild, ihTs]
        · rw [removeAll_cons_of_ne hchild, removeAll_cons_of_ne hchild, ihUs, ihTs]

/-- **A last child that is taken out and put back is where it was.** -/
theorem changeAll_removeAll {child : Tree} (hids : (idsAll ts).Nodup)
    (h : node b (us ++ [child]) ∈ subtreesAll ts) :
    changeAll b.id (addChild child) (removeAll child.id ts) = ts := by
  induction ts using siblingInduction with
  | nil => exact absurd h (by simp [subtreesAll])
  | cons c vs ts ihVs ihTs =>
      rw [idsAll_cons, List.nodup_cons, List.mem_append, not_or, List.nodup_append] at hids
      obtain ⟨⟨hcVs, hcTs⟩, hvs, hts, hapart⟩ := hids
      have hmem : ∀ {ws : List Tree}, node b (us ++ [child]) ∈ subtreesAll ws →
          b.id ∈ idsAll ws ∧ child.id ∈ idsAll ws := by
        intro ws hws
        refine ⟨List.mem_map_of_mem hws, List.mem_map_of_mem ?_⟩
        exact mem_subtreesAll_of_mem_below hws (mem_subtreesAll_of_mem (by simp))
      rw [subtreesAll_cons, List.mem_cons, List.mem_append] at h
      rcases h with h | h | h
      · injection h with hb hus
        subst hb hus
        rw [idsAll_append, List.nodup_append] at hvs
        have hchild : child.id ∈ idsAll [child] :=
          List.mem_map_of_mem (mem_subtreesAll_of_mem List.mem_cons_self)
        have hchildVs : child.id ∈ idsAll (us ++ [child]) := by
          rw [idsAll_append]
          exact List.mem_append_right _ hchild
        -- Neither id is met beside the child or after the block that holds it.
        have hbUs : b.id ∉ idsAll us := fun hb => hcVs (by simp [hb])
        have hchildUs : child.id ∉ idsAll us := fun hus => hvs.2.2 _ hus _ hchild rfl
        have hchildTs : child.id ∉ idsAll ts := fun hts => hapart _ hchildVs _ hts rfl
        rw [removeAll_cons_of_ne fun he => hcVs (he ▸ hchildVs), removeAll_append,
          removeAll_of_notMem hchildUs, removeAll_singleton, List.append_nil,
          removeAll_of_notMem hchildTs, changeAll_cons_of_eq rfl, changeAll_of_notMem hbUs,
          changeAll_of_notMem hcTs, addChild]
      · obtain ⟨hb, hchild⟩ := hmem h
        have hbTs : b.id ∉ idsAll ts := fun hts => hapart _ hb _ hts rfl
        have hchildTs : child.id ∉ idsAll ts := fun hts => hapart _ hchild _ hts rfl
        rw [removeAll_cons_of_ne fun he => hcVs (he ▸ hchild), removeAll_of_notMem hchildTs,
          changeAll_cons_of_ne fun he => hcVs (he ▸ hb), changeAll_of_notMem hbTs, ihVs hvs h]
      · obtain ⟨hb, hchild⟩ := hmem h
        have hbVs : b.id ∉ idsAll vs := fun hvs => hapart _ hvs _ hb rfl
        have hchildVs : child.id ∉ idsAll vs := fun hvs => hapart _ hvs _ hchild rfl
        rw [removeAll_cons_of_ne fun he => hcTs (he ▸ hchild), removeAll_of_notMem hchildVs,
          changeAll_cons_of_ne fun he => hcTs (he ▸ hb), changeAll_of_notMem hbVs, ihTs hts h]

end Blockwork.Tree
