import Blockwork.Proofs.Edit.Sound
import Blockwork.Workspace

/-!
# `Blockwork.Proofs.Edit.Outline`: the part of a walk that belongs to one block

A walk lists every block with its depth, so a block with what is in it can be read off the list
alone: it is the entry of the block and the deeper entries right after it. Around that part a walk
falls into three, and a splice of the trees at a block with a distinct id exchanges the one in the
middle.

## Contents
- `Outline.before`, `segment` and `after`, the three parts of a walk at an id.
- `Outline.rebase`, a part of a walk at another depth under another parent.
- `Outline.split`, when a list falls into three parts, and `Tree.Splice.outline`, what a splice does to
  them.
- `Tree.preorder_mapRoot_setParent` and `Tree.preorder_addChild`, the walks of changed trees.
-/

namespace Blockwork

/-! ## Parts of a walk -/

/-- Blocks with their depths, as a walk lists them. -/
abbrev Outline := List (Nat × Block)

namespace Outline

/-- What comes before the block with a given id. -/
def before (id : BlockId) (walk : Outline) : Outline :=
  walk.takeWhile (·.2.id ≠ id)

/-- The block with a given id and what is in it: its entry and the deeper ones right after it. -/
def segment (id : BlockId) (walk : Outline) : Outline :=
  match walk.dropWhile (·.2.id ≠ id) with
  | [] => []
  | top :: rest => top :: rest.takeWhile (top.1 < ·.1)

/-- What comes after the block with a given id and what is in it. -/
def after (id : BlockId) (walk : Outline) : Outline :=
  match walk.dropWhile (·.2.id ≠ id) with
  | [] => []
  | top :: rest => rest.dropWhile (top.1 < ·.1)

/-- The walk without a block and what is in it. -/
def cut (id : BlockId) (walk : Outline) : Outline :=
  before id walk ++ after id walk

/-- A block and what is in it, moved to another depth and under another parent. Only the first block
    names the new parent, the others keep theirs. -/
def rebase (depth : Nat) (container : Option BlockId) : Outline → Outline
  | [] => []
  | top :: inside =>
    (depth, top.2.setParent container) :: inside.map fun e => (e.1 - top.1 + depth, e.2)

/-- The walk with more entries after the last one of what is in a block. -/
def append (id : BlockId) (more walk : Outline) : Outline :=
  before id walk ++ (segment id walk ++ (more ++ after id walk))

/-- At any id a walk is the sequence of its three parts. -/
theorem before_segment_after (id : BlockId) (walk : Outline) :
    before id walk ++ (segment id walk ++ after id walk) = walk := by
  unfold before segment after
  conv_rhs => rw [← List.takeWhile_append_dropWhile (p := (·.2.id ≠ id)) (l := walk)]
  congr 1
  cases walk.dropWhile (·.2.id ≠ id) with
  | nil => rfl
  | cons top rest =>
      show top :: (rest.takeWhile _ ++ rest.dropWhile _) = top :: rest
      rw [List.takeWhile_append_dropWhile]

theorem segment_subset {id : BlockId} {walk : Outline} {e : Nat × Block}
    (h : e ∈ segment id walk) : e ∈ walk := by
  rw [← before_segment_after id walk]
  exact List.mem_append_right _ (List.mem_append_left _ h)

theorem cut_subset {id : BlockId} {walk : Outline} {e : Nat × Block} (h : e ∈ cut id walk) :
    e ∈ walk := by
  rw [← before_segment_after id walk]
  rcases List.mem_append.mp h with h | h
  · exact List.mem_append_left _ h
  · exact List.mem_append_right _ (List.mem_append_right _ h)

/-- **How the parts are recognised**: the id is met only once, deeper entries follow it, and then one
    that is not deeper. -/
theorem split {id : BlockId} {walk first last inside : Outline} {top : Nat × Block}
    (hwalk : walk = first ++ (top :: inside ++ last)) (htop : top.2.id = id)
    (hfirst : ∀ e ∈ first, e.2.id ≠ id) (hinside : ∀ e ∈ inside, top.1 < e.1)
    (hlast : ∀ e ∈ last.head?, e.1 ≤ top.1) :
    before id walk = first ∧ segment id walk = top :: inside ∧ after id walk = last := by
  have hpos : ∀ e ∈ first, decide (e.2.id ≠ id) = true := fun e he => decide_eq_true (hfirst e he)
  have hneg : ¬decide (top.2.id ≠ id) = true := by simpa using htop
  have hdeep : ∀ e ∈ inside, decide (top.1 < e.1) = true := fun e he =>
    decide_eq_true (hinside e he)
  have hdrop : walk.dropWhile (·.2.id ≠ id) = top :: (inside ++ last) := by
    rw [hwalk, List.dropWhile_append_of_pos hpos, List.cons_append, List.dropWhile_cons, if_neg hneg]
  have hstop : last.takeWhile (top.1 < ·.1) = [] ∧ last.dropWhile (top.1 < ·.1) = last := by
    cases last with
    | nil => exact ⟨rfl, rfl⟩
    | cons e last =>
        have he : ¬decide (top.1 < e.1) = true := by simpa using hlast e rfl
        exact ⟨List.takeWhile_cons_of_neg he, List.dropWhile_cons_of_neg he⟩
  refine ⟨?_, ?_, ?_⟩
  · rw [before, hwalk, List.takeWhile_append_of_pos hpos, List.cons_append, List.takeWhile_cons,
      if_neg hneg, List.append_nil]
  · rw [segment, hdrop]
    show top :: (inside ++ last).takeWhile _ = top :: inside
    rw [List.takeWhile_append_of_pos hdeep, hstop.1, List.append_nil]
  · rw [after, hdrop]
    show (inside ++ last).dropWhile _ = last
    rw [List.dropWhile_append_of_pos hdeep, hstop.2]

end Outline

/-! ## Splices of trees -/

namespace Tree

/-- **A splice at a block exchanges its part of the walk.** -/
theorem Splice.outline {t : Tree} {new ts ts' : List Tree} (h : Splice [t] new ts ts')
    (hids : (idsAll ts).Nodup) (depth : Nat) :
    ∃ k, Outline.segment t.id (preorderAll depth ts) = t.preorder k ∧
      preorderAll depth ts' = Outline.before t.id (preorderAll depth ts)
        ++ (preorderAll k new ++ Outline.after t.id (preorderAll depth ts)) := by
  obtain ⟨k, first, last, hts, hts', -, hlast⟩ := h.exists_preorderAll depth
  cases t with
  | node b us =>
      rw [preorderAll_singleton, preorder] at hts
      -- The id is met at the block itself, so an earlier entry cannot have it.
      have hfirst : ∀ e ∈ first, e.2.id ≠ b.id := by
        intro e he heq
        rw [← map_id_preorderAll depth, hts, List.map_append, List.nodup_append] at hids
        exact hids.2.2 _ (List.mem_map_of_mem he) b.id (by simp) heq
      have hinside : ∀ e ∈ preorderAll (k + 1) us, k < e.1 := fun e he =>
        le_depth_of_mem_preorderAll he
      obtain ⟨hbefore, hsegment, hafter⟩ := Outline.split hts rfl hfirst hinside hlast
      refine ⟨k, ?_, ?_⟩
      · rw [preorder]
        exact hsegment
      · rw [hts', id_node, hbefore, hafter]

/-- Another parent for the root of a tree, at another depth. -/
theorem preorder_mapRoot_setParent (container : Option BlockId) (depth k : Nat) (t : Tree) :
    (t.mapRoot (·.setParent container)).preorder depth
      = Outline.rebase depth container (t.preorder k) := by
  cases t with
  | node b us =>
      rw [mapRoot, preorder, preorder, Outline.rebase]
      congr 1
      -- Both walks of the content are the one that starts at depth one, shifted.
      rw [Nat.add_comm depth, Nat.add_comm k, preorderAll_shift, preorderAll_shift, List.map_map]
      refine List.map_congr_left fun e _ => ?_
      simp

/-- A new child comes after everything that was in the tree. -/
theorem preorder_addChild (child : Tree) (depth : Nat) (t : Tree) :
    (addChild child t).preorder depth = t.preorder depth ++ child.preorder (depth + 1) := by
  cases t with
  | node b us =>
      rw [addChild, preorder, preorder, preorderAll_append, preorderAll_singleton, List.cons_append]

end Tree

/-! ## Edits that move or remove a block -/

namespace Forest

variable {f g : Forest}

/-- What the walk shows at an id: one stretch of it, which is the walk of the tree with that id. -/
def Shows (f : Forest) (id : BlockId) : Prop :=
  ∃ t depth, f.find? id = some t ∧ Outline.segment id f.walk = t.preorder depth ∧
    f.walk = Outline.before id f.walk ++ (t.preorder depth ++ Outline.after id f.walk)

/-- A block that is cut out takes its part of the walk with it and leaves the rest. -/
theorem walk_of_cut (hf : f.ids.Nodup) {t : Tree} {rest : List Tree}
    (hcut : Tree.Splice [t] [] f.roots rest) :
    ∃ k, f.find? t.id = some t ∧ Outline.segment t.id f.walk = t.preorder k ∧
      Tree.preorderAll 0 rest = Outline.cut t.id f.walk := by
  obtain ⟨k, hsegment, hrest⟩ := hcut.outline hf 0
  rw [walk_eq_preorder]
  exact ⟨k, find?_of_cut hf hcut, hsegment, hrest⟩

theorem shows_of_segment {t : Tree} {k : Nat} (hfind : f.find? t.id = some t)
    (hsegment : Outline.segment t.id f.walk = t.preorder k) : f.Shows t.id := by
  refine ⟨t, k, hfind, hsegment, ?_⟩
  rw [← hsegment, Outline.before_segment_after]

theorem walk_delete (hf : f.ids.Nodup) {id : BlockId} (h : f.delete id = .ok g) :
    f.Shows id ∧ g.walk = Outline.cut id f.walk := by
  obtain ⟨t, rfl, hcut, -⟩ := delete_ok h
  obtain ⟨k, hfind, hsegment, hrest⟩ := walk_of_cut hf hcut
  exact ⟨shows_of_segment hfind hsegment, g.walk_eq_preorder.trans hrest⟩

theorem walk_ungroup (hf : f.ids.Nodup) {child : BlockId} (h : f.ungroup child = .ok g) :
    f.Shows child ∧
      g.walk = Outline.cut child f.walk
        ++ Outline.rebase 0 none (Outline.segment child f.walk) := by
  obtain ⟨moved, rest, -, rfl, hcut, hroots, -⟩ := ungroup_ok h
  obtain ⟨k, hfind, hsegment, hrest⟩ := walk_of_cut hf hcut
  refine ⟨shows_of_segment hfind hsegment, ?_⟩
  rw [g.walk_eq_preorder, preorder, hroots, Tree.preorderAll_append, hrest,
    Tree.preorderAll_singleton, Tree.preorder_mapRoot_setParent none 0 k, hsegment]

theorem walk_group (hf : f.ids.Nodup) {parent child : BlockId} (h : f.group parent child = .ok g) :
    f.Shows child ∧ ∃ e ∈ f.walk, e.2.id = parent ∧
      g.walk = Outline.append parent
        (Outline.rebase (e.1 + 1) (some parent) (Outline.segment child f.walk))
        (Outline.cut child f.walk) := by
  obtain ⟨-, -, moved, rest, t, -, -, -, -, -, rfl, hcut, rfl, hput, -⟩ := group_ok h
  obtain ⟨k, hfind, hsegment, hrest⟩ := walk_of_cut hf hcut
  refine ⟨shows_of_segment hfind hsegment, ?_⟩
  -- The parent is looked up in what the cut left, so its part is taken from there.
  have hrestIds : (Tree.idsAll rest).Nodup :=
    (List.nodup_append.mp (hcut.perm_idsAll_cut.nodup_iff.mp hf)).1
  obtain ⟨d, htarget, hwalk⟩ := hput.outline hrestIds 0
  rw [hrest] at htarget hwalk
  have hmem : (d, t.block) ∈ Outline.segment t.id (Outline.cut moved.id f.walk) := by
    rw [htarget]
    cases t with
    | node b us => exact List.mem_cons_self
  refine ⟨(d, t.block), ?_, rfl, ?_⟩
  · exact Outline.cut_subset (Outline.segment_subset hmem)
  · rw [g.walk_eq_preorder, preorder, hwalk, Outline.append, htarget, Tree.preorderAll_singleton,
      Tree.preorder_addChild, Tree.preorder_mapRoot_setParent _ _ k, hsegment, List.append_assoc]

/-- **Deleting, ungrouping and grouping are splices of the walk.** The block's part leaves its place;
    deleting drops it, ungrouping puts it at the end with the block at the top level, grouping puts
    it after all that is left in the parent with the block one deeper than that. Nothing else of the
    walk changes, and the counter stays. -/
theorem walk_of_moves (hf : f.Valid) (id : BlockId) :
    (∀ g, f.delete id = .ok g →
      f.Shows id ∧ g.walk = Outline.cut id f.walk ∧ g.nextSerial = f.nextSerial) ∧
    (∀ g, f.ungroup id = .ok g →
      f.Shows id ∧ g.nextSerial = f.nextSerial ∧
      g.walk = Outline.cut id f.walk ++ Outline.rebase 0 none (Outline.segment id f.walk)) ∧
    (∀ parent g, f.group parent id = .ok g →
      f.Shows id ∧ g.nextSerial = f.nextSerial ∧
      ∃ e ∈ f.walk, e.2.id = parent ∧
        g.walk = Outline.append parent
          (Outline.rebase (e.1 + 1) (some parent) (Outline.segment id f.walk))
          (Outline.cut id f.walk)) := by
  have hids : f.ids.Nodup := (valid_iff_sound.mp hf).distinct
  refine ⟨?_, ?_, ?_⟩
  · intro g h
    obtain ⟨hshows, hwalk⟩ := walk_delete hids h
    obtain ⟨-, -, -, hserial⟩ := delete_ok h
    exact ⟨hshows, hwalk, hserial⟩
  · intro g h
    obtain ⟨hshows, hwalk⟩ := walk_ungroup hids h
    obtain ⟨-, -, -, -, -, -, hserial⟩ := ungroup_ok h
    exact ⟨hshows, hserial, hwalk⟩
  · intro parent g h
    obtain ⟨hshows, hwalk⟩ := walk_group hids h
    obtain ⟨-, -, -, -, -, -, -, -, -, -, -, -, -, -, hserial⟩ := group_ok h
    exact ⟨hshows, hserial, hwalk⟩

/-- A loop with a loop and a statement in it, and another loop. -/
def loopsAndStatements : Forest :=
  (Workspace.empty.applyAll
    [.insert "for" .origin, .insert "while" .origin, .insert "print" .origin,
      .insert "for" .origin, .group "for-1" "while-2", .group "while-2" "print-3"]).1.forest

/-- Each of the three edits is accepted there. -/
theorem walk_of_moves_loops :
    let f := loopsAndStatements
    f.Valid ∧
    (∃ g, f.delete "while-2" = .ok g ∧ g.walk = Outline.cut "while-2" f.walk) ∧
    (∃ g, f.ungroup "while-2" = .ok g ∧
      g.walk = Outline.cut "while-2" f.walk
        ++ Outline.rebase 0 none (Outline.segment "while-2" f.walk)) ∧
    (∃ g, f.group "for-4" "while-2" = .ok g ∧ ∃ e ∈ f.walk, e.2.id = "for-4" ∧
      g.walk = Outline.append "for-4"
        (Outline.rebase (e.1 + 1) (some "for-4") (Outline.segment "while-2" f.walk))
        (Outline.cut "while-2" f.walk)) := by
  have hvalid : loopsAndStatements.Valid := by rfl
  obtain ⟨hdelete, hungroup, hgroup⟩ := walk_of_moves hvalid "while-2"
  have hdeleted : loopsAndStatements.delete "while-2"
      = .ok (loopsAndStatements.apply (.delete "while-2")).forest := by rfl
  have hungrouped : loopsAndStatements.ungroup "while-2"
      = .ok (loopsAndStatements.apply (.ungroup "while-2")).forest := by rfl
  have hgrouped : loopsAndStatements.group "for-4" "while-2"
      = .ok (loopsAndStatements.apply (.group "for-4" "while-2")).forest := by rfl
  exact ⟨hvalid, ⟨_, hdeleted, (hdelete _ hdeleted).2.1⟩,
    ⟨_, hungrouped, (hungroup _ hungrouped).2.2⟩, ⟨_, hgrouped, (hgroup _ _ hgrouped).2.2⟩⟩

end Forest

end Blockwork
