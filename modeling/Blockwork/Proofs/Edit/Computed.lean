import Blockwork.Proofs.Edit.Acceptance
import Blockwork.Proofs.Tree.Replaced

/-!
# `Blockwork.Proofs.Edit.Computed`: the edits of a forest with distinct ids, computed

An edit searches for its block, and two of them search again in what the first search left. Where ids
are distinct all of this comes to replacements: each accepted edit is given here by an equation for
the forest after it, in which nothing is searched for but the tree that moves. What edits do one after
the other is computed from these equations.

## Contents
- `Command.Reshapes`, the edits that move or remove a block.
- `Forest.after`, the forest after a command; `Forest.mapBlocks`, the forest with all blocks changed.
- `Forest.after_update` with `Forest.Sound.after_update`, `delete_of_mem` with `after_delete`,
  `group_computed`, `ungroup_computed` with `ungroup_of_notMem`.
- `Forest.group_of_last`: a block that is the last child of its parent already is grouped to where it
  is.
-/

namespace Blockwork

/-- The patched block if it is the one with the id. -/
def Block.patchAt (id : BlockId) (p : Patch) (b : Block) : Block :=
  if b.id = id then b.patch p else b

/-- The edits that move or remove a block. -/
inductive Command.Reshapes : Command → Prop where
  | delete (id : BlockId) : Reshapes (.delete id)
  | group (parent child : BlockId) : Reshapes (.group parent child)
  | ungroup (id : BlockId) : Reshapes (.ungroup id)

namespace Tree

theorem id_mapRoot {u : Block → Block} (hu : ∀ b, (u b).id = b.id) (t : Tree) :
    (t.mapRoot u).id = t.id := by
  cases t with
  | node b us => exact hu b

/-- A root that names its container is not changed by naming it. -/
theorem mapRoot_setParent_eq_self {container : Option BlockId} {t : Tree}
    (h : t.block.parent = container) : t.mapRoot (·.setParent container) = t := by
  cases t with
  | node b us =>
      rw [block_node] at h
      rw [mapRoot, Block.setParent, ← h]

/-- Only the last parent that a root was given counts. -/
theorem mapRoot_setParent_setParent (c d : Option BlockId) (t : Tree) :
    (t.mapRoot (·.setParent c)).mapRoot (·.setParent d) = t.mapRoot (·.setParent d) := by
  cases t with
  | node b us => rfl

theorem id_addChild (child t : Tree) : (addChild child t).id = t.id := by
  cases t with
  | node b us => rfl

end Tree

namespace Forest

variable {f g : Forest} {id parent child : BlockId} {p : Patch}

/-- The forest after a command, the same if the command is refused. -/
def after (f : Forest) (c : Command) : Forest :=
  (f.apply c).forest

/-- The forest with `u` applied to every block. -/
def mapBlocks (u : Block → Block) (f : Forest) : Forest :=
  ⟨Tree.mapAll u f.roots, f.nextSerial⟩

/-- Edits of the shape keep ids distinct. -/
theorem ids_after_nodup (hf : f.Sound) {c : Command} (hc : c.Reshapes) : (f.after c).ids.Nodup := by
  have h := f.applied_apply c
  rw [after]
  generalize f.apply c = o at h
  cases h with
  | refused r => exact hf.distinct
  | insert h => cases hc
  | update h => cases hc
  | delete h => exact (hf.delete h).distinct
  | group h => exact (hf.group h).distinct
  | ungroup h => exact (hf.ungroup h).distinct

/-- Updates keep a forest sound. -/
theorem Sound.after_update (hf : f.Sound) (id : BlockId) (p : Patch) : (f.after (.update id p)).Sound := by
  have h := f.applied_apply (.update id p)
  rw [after]
  generalize f.apply (.update id p) = o at h
  cases h with
  | refused r => exact hf
  | update h => exact hf.update h

theorem after_update_of_notMem (h : id ∉ f.ids) : f.after (.update id p) = f := by
  rw [after, apply, update, find?_eq_none_iff.mpr h]
  rfl

/-- **An update changes the blocks with its id and searches no further.** -/
theorem after_update (hf : f.ids.Nodup) :
    f.after (.update id p) = f.mapBlocks (Block.patchAt id p) := by
  by_cases hid : id ∈ f.ids
  · obtain ⟨t, hfind⟩ := Option.isSome_iff_exists.mp (contains_iff.mpr hid)
    have hmodify := Tree.modifyIn?_eq (f := Tree.mapRoot (·.patch p)) hf hid
    rw [after, apply, update, hfind]
    simp only [hmodify, Tree.changeAll_mapRoot]
    rfl
  · have hself : Tree.mapAll (Block.patchAt id p) f.roots = f.roots := by
      refine Tree.mapAll_eq_self fun b hb => if_neg fun he => hid ?_
      rw [← he, ← map_id_blocks]
      exact List.mem_map_of_mem hb
    rw [after_update_of_notMem hid, mapBlocks, hself]

theorem delete_of_mem (hf : f.ids.Nodup) (hid : id ∈ f.ids) :
    f.delete id = .ok ⟨Tree.removeAll id f.roots, f.nextSerial⟩ := by
  obtain ⟨t, hfind⟩ := Option.isSome_iff_exists.mp (contains_iff.mpr hid)
  rw [find?] at hfind
  rw [delete, Tree.cut?_eq hf, hfind]
  rfl

/-- **A deletion removes the tree with its id.** -/
theorem after_delete (hf : f.ids.Nodup) :
    f.after (.delete id) = ⟨Tree.removeAll id f.roots, f.nextSerial⟩ := by
  rw [after, apply]
  by_cases hid : id ∈ f.ids
  · rw [delete_of_mem hf hid]
    rfl
  · rw [delete, Tree.cut?_eq_none_iff.mpr hid, Tree.removeAll_of_notMem hid]
    rfl

/-- What is left by a cut that stands in an accepted edit. -/
theorem rest_eq_removeAll (hf : f.ids.Nodup) {moved : Tree} {rest : List Tree}
    (hcut : Tree.Splice [moved] [] f.roots rest) :
    f.find? moved.id = some moved ∧ rest = Tree.removeAll moved.id f.roots :=
  ⟨find?_of_cut hf hcut, hcut.eq_replaceAll hf⟩

/-- **An accepted grouping removes the tree of the child and adds it below the parent.** -/
theorem group_computed (hf : f.ids.Nodup) (h : f.group parent child = .ok g) :
    ∃ moved, f.find? child = some moved ∧
      g = ⟨Tree.changeAll parent (Tree.addChild (moved.mapRoot (·.setParent (some parent))))
        (Tree.removeAll child f.roots), f.nextSerial⟩ := by
  obtain ⟨-, -, moved, rest, t, -, -, -, -, -, rfl, hcut, rfl, hput, hserial⟩ := group_ok h
  obtain ⟨hfind, rfl⟩ := rest_eq_removeAll hf hcut
  refine ⟨moved, hfind, ?_⟩
  have hrest : (Tree.idsAll (Tree.removeAll moved.id f.roots)).Nodup :=
    (List.nodup_append.mp (hcut.perm_idsAll_cut.nodup_iff.mp hf)).1
  have hroots : g.roots = Tree.changeAll t.id
      (Tree.addChild (moved.mapRoot (·.setParent (some t.id)))) (Tree.removeAll moved.id f.roots) :=
    Tree.Splice.eq_changeAll hput hrest
  rw [← hroots, ← hserial]

/-- **An ungrouping removes the tree of a nested block and adds it at the end.** -/
theorem ungroup_computed (hf : f.ids.Nodup) {moved : Tree} (hfind : f.find? id = some moved)
    (hnested : id ∉ f.roots.map Tree.id) :
    f.ungroup id
      = .ok ⟨Tree.removeAll id f.roots ++ [moved.mapRoot (·.setParent none)], f.nextSerial⟩ := by
  have hroot : ¬f.roots.any (·.id == id) = true := by simpa using hnested
  rw [find?] at hfind
  rw [ungroup, if_neg hroot, Tree.cut?_eq hf, hfind]
  rfl

/-- **A block that is the last child of its parent is grouped to where it is.** -/
theorem group_of_last (hf : f.Sound) {b : Block} {us : List Tree} {t : Tree}
    (h : .node b (us ++ [t]) ∈ f.subtrees) : f.group b.id t.id = .ok f := by
  obtain ⟨-, hnested, howners⟩ := Tree.hangsAll_iff.mp hf.hangs
  have hchild : t ∈ (Tree.node b (us ++ [t])).children := by simp
  have htMem : t ∈ f.subtrees :=
    Tree.mem_subtreesAll_of_mem_below h (Tree.mem_subtreesAll_of_mem hchild)
  have htIds : t.id ∈ f.ids := mem_ids_of_mem_subtrees htMem
  have hbIds : b.id ∈ f.ids := mem_ids_of_mem_subtrees h
  have hbInside : b.id ∉ Tree.idsAll (us ++ [t]) := Tree.id_notMem_of_mem hf.distinct h
  rw [Tree.idsAll_append, List.mem_append, not_or] at hbInside
  cases hgroup : f.group b.id t.id with
  | error r =>
      exfalso
      have hrefuses : f.Refuses (.group b.id t.id) :=
        refuses_of_not_changed hf.distinct (by rw [apply, hgroup]; rfl)
      rcases hrefuses with
        hself | hmissing | hmissing | ⟨u, hu, hid, hinside⟩ | ⟨c, hc, hid, hleaf⟩
      · refine hbInside.2 (hself ▸ List.mem_map_of_mem ?_)
        exact Tree.mem_subtreesAll_of_mem List.mem_cons_self
      · exact hmissing htIds
      · exact hmissing hbIds
      · -- The tree with the child's id is the child, and its parent is not in it.
        obtain rfl := Tree.eq_of_id_eq hf.distinct hu htMem hid
        rw [← Tree.subtreesAll_singleton] at hinside
        exact hbInside.2 hinside
      · have hsame : c = b := block_eq_of_id_eq hf.distinct hc (Tree.mem_blocksAll_of_mem h) hid
        have howner : c.kind.canOwnChildren = true := hsame ▸ howners _ h (by simp)
        exact absurd (hleaf.symm.trans howner) (by simp)
  | ok g =>
      obtain ⟨moved, hfind, rfl⟩ := group_computed hf.distinct hgroup
      have hmoved : moved = t :=
        Option.some.inj (hfind.symm.trans ((Tree.findAll?_eq_some_iff hf.distinct).mpr ⟨htMem, rfl⟩))
      have hparent : t.block.parent = some b.id := hnested _ h t hchild
      rw [hmoved, Tree.mapRoot_setParent_eq_self hparent, Tree.changeAll_removeAll hf.distinct h]

end Forest

end Blockwork
