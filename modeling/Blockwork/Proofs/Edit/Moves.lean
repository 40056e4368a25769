import Blockwork.Proofs.Edit.Computed
import Blockwork.Proofs.Edit.Outline

/-!
# `Blockwork.Proofs.Edit.Moves`: what moves and deletions come to one after the other

A move takes a tree out and puts it in again with another parent. What is left without the tree does
not depend on where it was put, so a deletion after a move is the deletion before it, and a second
move starts from what the first one started from.

## Contents
- `Forest.after_delete_comm`: deletions in either order.
- `Forest.exists_last_of_group`: where a grouped block stands, and `removeAll_of_group` and
  `removeAll_of_ungroup`: what is left without the moved block.
- `Forest.group_group`, `delete_of_group`, `delete_of_ungroup`, `ungroup_of_group`: a second edit of
  the block that was moved.
- `Forest.last_eq_self`: a last root that is taken out and put last is where it was.
- `Forest.move_laws`.
-/

namespace Blockwork

namespace Forest

variable {f g : Forest} {parent child id : BlockId}

/-! ## Deletions -/

/-- Deletions may change places, be the blocks in each other, equal or absent. -/
theorem after_delete_comm (hf : f.Sound) (a b : BlockId) :
    (f.after (.delete a)).after (.delete b) = (f.after (.delete b)).after (.delete a) := by
  rw [after_delete (ids_after_nodup hf (.delete a)), after_delete (ids_after_nodup hf (.delete b)),
    after_delete hf.distinct, after_delete hf.distinct, Tree.removeAll_comm]

/-! ## What a move leaves -/

/-- A grouped block is the last child of its new parent, with everything in it. -/
theorem exists_last_of_group (hf : f.ids.Nodup) (h : f.group parent child = .ok g) :
    ∃ moved b us, f.find? child = some moved ∧ b.id = parent ∧
      .node b (us ++ [moved.mapRoot (·.setParent (some parent))]) ∈ g.subtrees := by
  obtain ⟨-, -, moved, rest, t, -, -, -, -, -, rfl, hcut, htarget, hput, -⟩ := group_ok h
  have hlast := hput.symm.mem_subtreesAll List.mem_cons_self
  cases t with
  | node b us => exact ⟨moved, b, us, find?_of_cut hf hcut, htarget, hlast⟩

/-- The moved tree has the id by which it was found. -/
theorem id_moved {moved : Tree} (hfind : f.find? id = some moved) (container : Option BlockId) :
    (moved.mapRoot (·.setParent container)).id = id :=
  (Tree.id_mapRoot (Block.id_setParent container) moved).trans (Tree.mem_of_findAll?_eq_some hfind).2

/-- Without the child a grouped forest is what it was without the child before. -/
theorem removeAll_of_group (hf : f.ids.Nodup) (h : f.group parent child = .ok g) :
    Tree.removeAll child g.roots = Tree.removeAll child f.roots := by
  obtain ⟨moved, hfind, rfl⟩ := group_computed hf h
  have hput := Tree.removeAll_changeAll_addChild parent (moved.mapRoot (·.setParent (some parent)))
    (Tree.removeAll child f.roots)
  rw [id_moved hfind, Tree.removeAll_removeAll] at hput
  exact hput

theorem removeAll_of_ungroup (hf : f.ids.Nodup) (h : f.ungroup id = .ok g) :
    Tree.removeAll id g.roots = Tree.removeAll id f.roots := by
  obtain ⟨moved, rest, -, rfl, hcut, hroots, -⟩ := ungroup_ok h
  obtain ⟨hfind, rfl⟩ := rest_eq_removeAll hf hcut
  have hlast := Tree.removeAll_singleton (moved.mapRoot (·.setParent none))
  rw [id_moved hfind] at hlast
  rw [hroots, Tree.removeAll_append, Tree.removeAll_removeAll, hlast, List.append_nil]

/-- A grouped block is no root. -/
theorem notMem_roots_of_group (hf : f.ids.Nodup) (h : f.group parent child = .ok g) :
    child ∉ g.roots.map Tree.id := by
  obtain ⟨moved, -, rfl⟩ := group_computed hf h
  rw [Tree.map_id_changeAll (Tree.id_addChild _)]
  intro hroot
  obtain ⟨t, ht, hid⟩ := List.mem_map.mp hroot
  have hmem : t.id ∈ Tree.idsAll (Tree.removeAll child f.roots) :=
    List.mem_map_of_mem (Tree.mem_subtreesAll_of_mem ht)
  exact Tree.notMem_idsAll_removeAll child f.roots (hid ▸ hmem)

/-- A last root that is taken out and put last is where it was. -/
theorem last_eq_self (hf : f.Sound) {t : Tree} (hlast : f.roots.getLast? = some t) :
    (⟨Tree.removeAll t.id f.roots ++ [t.mapRoot (·.setParent none)], f.nextSerial⟩ : Forest) = f := by
  obtain ⟨before, hroots⟩ := List.getLast?_eq_some_iff.mp hlast
  have hids : (Tree.idsAll (before ++ [t])).Nodup := hroots ▸ hf.distinct
  rw [Tree.idsAll_append, List.nodup_append] at hids
  have hbefore : t.id ∉ Tree.idsAll before := by
    intro hmem
    refine hids.2.2 t.id hmem t.id (List.mem_map_of_mem ?_) rfl
    exact Tree.mem_subtreesAll_of_mem List.mem_cons_self
  have hparent : t.block.parent = none :=
    (Tree.hangsAll_iff.mp hf.hangs).1 t (hroots ▸ List.mem_append_right _ List.mem_cons_self)
  rw [hroots, Tree.removeAll_append, Tree.removeAll_of_notMem hbefore, Tree.removeAll_singleton,
    List.append_nil, Tree.mapRoot_setParent_eq_self hparent, ← hroots]

/-! ## A second edit -/

/-- **Grouping again changes nothing.** -/
theorem group_group (hf : f.Sound) (h : f.group parent child = .ok g) :
    g.group parent child = .ok g := by
  obtain ⟨moved, b, us, hfind, rfl, hlast⟩ := exists_last_of_group hf.distinct h
  have hagain := group_of_last (hf.group h) hlast
  rwa [id_moved hfind] at hagain

theorem delete_of_group (hf : f.ids.Nodup) (h : f.group parent child = .ok g) :
    f.delete child = .ok ⟨Tree.removeAll child f.roots, f.nextSerial⟩ ∧
      g.delete child = .ok ⟨Tree.removeAll child f.roots, f.nextSerial⟩ := by
  have hids := ids_group h
  obtain ⟨moving, -, -, -, -, -, hfind, -, -, -, -, -, -, -, hserial⟩ := group_ok h
  have hchild : child ∈ f.ids := mem_ids_of_find? hfind
  refine ⟨delete_of_mem hf hchild, ?_⟩
  rw [delete_of_mem (hids.nodup_iff.mpr hf) (hids.mem_iff.mpr hchild), removeAll_of_group hf h, hserial]

theorem delete_of_ungroup (hf : f.ids.Nodup) (h : f.ungroup id = .ok g) :
    f.delete id = .ok ⟨Tree.removeAll id f.roots, f.nextSerial⟩ ∧
      g.delete id = .ok ⟨Tree.removeAll id f.roots, f.nextSerial⟩ := by
  have hids := ids_ungroup h
  have hroots := removeAll_of_ungroup hf h
  obtain ⟨moved, rest, -, rfl, hcut, -, hserial⟩ := ungroup_ok h
  have hmoved : moved.id ∈ f.ids := mem_ids_of_mem_subtrees (hcut.mem_subtreesAll List.mem_cons_self)
  refine ⟨delete_of_mem hf hmoved, ?_⟩
  rw [delete_of_mem (hids.nodup_iff.mpr hf) (hids.mem_iff.mpr hmoved), hroots, hserial]

/-- **Taking a grouped block to the top level** moves it there from where it was before it was
    grouped. -/
theorem ungroup_of_group (hf : f.Sound) (h : f.group parent child = .ok g) :
    ∃ moved, f.find? child = some moved ∧
      g.ungroup child = .ok
        ⟨Tree.removeAll child f.roots ++ [moved.mapRoot (·.setParent none)], f.nextSerial⟩ := by
  have hg : g.Sound := hf.group h
  obtain ⟨moved, b, us, hfind, -, hlast⟩ := exists_last_of_group hf.distinct h
  have hmem : moved.mapRoot (·.setParent (some parent)) ∈ g.subtrees :=
    Tree.mem_subtreesAll_of_mem_below hlast (Tree.mem_subtreesAll_of_mem (by simp))
  have hfound : g.find? child = some (moved.mapRoot (·.setParent (some parent))) :=
    (Tree.findAll?_eq_some_iff hg.distinct).mpr ⟨hmem, id_moved hfind _⟩
  obtain ⟨-, -, -, -, -, -, -, -, -, -, -, -, -, -, hserial⟩ := group_ok h
  refine ⟨moved, hfind, ?_⟩
  rw [ungroup_computed hg.distinct hfound (notMem_roots_of_group hf.distinct h),
    removeAll_of_group hf.distinct h, Tree.mapRoot_setParent_setParent, hserial]

/-- **Moves and deletions one after the other.** Deletions may change places. An accepted grouping
    may be repeated, and the forest stays as it is. After a move the block is deleted as if it had
    not moved. A grouped block that is taken to the top level again is the last root, with all that
    was in it, of what is left without it; if it was the last root before, nothing has changed. -/
theorem move_laws (hf : f.Valid) :
    (∀ a b, (f.after (.delete a)).after (.delete b) = (f.after (.delete b)).after (.delete a)) ∧
    (∀ parent child g, f.group parent child = .ok g →
      g.group parent child = .ok g ∧
      (∃ rest moved, f.delete child = .ok rest ∧ g.delete child = .ok rest ∧
        f.find? child = some moved ∧
        g.ungroup child
          = .ok { rest with roots := rest.roots ++ [moved.mapRoot (·.setParent none)] }) ∧
      (f.roots.getLast?.map Tree.id = some child → g.ungroup child = .ok f)) ∧
    (∀ child g, f.ungroup child = .ok g →
      ∃ rest, f.delete child = .ok rest ∧ g.delete child = .ok rest) := by
  have hsound : f.Sound := valid_iff_sound.mp hf
  refine ⟨after_delete_comm hsound, ?_, ?_⟩
  · intro parent child g h
    obtain ⟨hbefore, hafter⟩ := delete_of_group hsound.distinct h
    obtain ⟨moved, hfind, hungroup⟩ := ungroup_of_group hsound h
    refine ⟨group_group hsound h, ⟨_, moved, hbefore, hafter, hfind, hungroup⟩, ?_⟩
    intro hlast
    obtain ⟨t, hroot, rfl⟩ := Option.map_eq_some_iff.mp hlast
    -- The last root is the tree that a search for its id finds.
    have hroots : t ∈ f.subtrees := Tree.mem_subtreesAll_of_mem (List.mem_of_getLast? hroot)
    have hmoved : moved = t := Option.some.inj
      (hfind.symm.trans ((Tree.findAll?_eq_some_iff hsound.distinct).mpr ⟨hroots, rfl⟩))
    rw [hungroup, hmoved, last_eq_self hsound hroot]
  · intro child g h
    obtain ⟨hbefore, hafter⟩ := delete_of_ungroup hsound.distinct h
    exact ⟨_, hbefore, hafter⟩

/-- The last loop goes into the first one and comes back; the inner loop moves and is deleted. -/
theorem move_laws_loops :
    let f := loopsAndStatements
    f.Valid ∧
    (f.after (.delete "while-2")).after (.delete "print-3")
      = (f.after (.delete "print-3")).after (.delete "while-2") ∧
    f.roots.getLast?.map Tree.id = some "for-4" ∧
    (∃ g, f.group "for-1" "for-4" = .ok g ∧ g.roots.map Tree.id = ["for-1"] ∧
      g.group "for-1" "for-4" = .ok g ∧ g.ungroup "for-4" = .ok f) ∧
    (∃ g rest, f.ungroup "while-2" = .ok g ∧ g.roots.map Tree.id = ["for-1", "for-4", "while-2"] ∧
      f.delete "while-2" = .ok rest ∧ g.delete "while-2" = .ok rest) := by
  have hvalid : loopsAndStatements.Valid := by rfl
  have hlast : loopsAndStatements.roots.getLast?.map Tree.id = some "for-4" := by rfl
  have hgrouped : loopsAndStatements.group "for-1" "for-4"
      = .ok (loopsAndStatements.after (.group "for-1" "for-4")) := by rfl
  have hungrouped : loopsAndStatements.ungroup "while-2"
      = .ok (loopsAndStatements.after (.ungroup "while-2")) := by rfl
  obtain ⟨hdelete, hgroup, hungroup⟩ := move_laws hvalid
  obtain ⟨hagain, -, hback⟩ := hgroup _ _ _ hgrouped
  obtain ⟨rest, hbefore, hafter⟩ := hungroup _ _ hungrouped
  exact ⟨hvalid, hdelete _ _, hlast, ⟨_, hgrouped, by rfl, hagain, hback hlast⟩,
    ⟨_, rest, hungrouped, by rfl, hbefore, hafter⟩⟩

end Forest

end Blockwork
