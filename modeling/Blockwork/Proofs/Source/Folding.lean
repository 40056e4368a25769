import Blockwork.Proofs.Edit.Updates
import Blockwork.Proofs.Source.Written

/-!
# `Blockwork.Proofs.Source.Folding`: the source does not depend on what is folded away

Forests that are equal but for the content of collapsed blocks have the same source: the recursion that
writes it stops at a collapsed block before it looks at the content, and sorting looks at the siblings
alone. So folding a block takes the entries of its content out of the source and leaves all others where
they are, and unfolding it brings them back.

## Contents
- `Tree.SameUnfolded`, equality but for folded content, and `Forest.bucketEmitted_of_sameUnfolded`.
- `Patch.setCollapsed`, with `Forest.after_fold_unfold`: unfolding undoes folding.
- `Forest.map_shown_emit_fold`: what is written for a tree once a block is folded; with
  `map_shown_groups_fold` and `generate_fold`, for the groups and for the source.
- `Forest.folding_hides`.
-/

namespace Blockwork

namespace Tree

variable {ts us : List Tree}

/-! ## Equal but for folded content -/

/-- Siblings that are equal but for the content of collapsed blocks. -/
inductive SameUnfolded : List Tree → List Tree → Prop where
  | nil : SameUnfolded [] []
  | folded {b : Block} {ts ts' : List Tree} (us us' : List Tree) (collapsed : b.collapsed = true)
      (after : SameUnfolded ts ts') : SameUnfolded (node b us :: ts) (node b us' :: ts')
  | cons {b : Block} {us us' ts ts' : List Tree} (below : SameUnfolded us us')
      (after : SameUnfolded ts ts') : SameUnfolded (node b us :: ts) (node b us' :: ts')

theorem SameUnfolded.filter (h : SameUnfolded ts us) (p : Block → Bool) :
    SameUnfolded (ts.filter fun t => p t.block) (us.filter fun t => p t.block) := by
  induction h with
  | nil => exact .nil
  | @folded b _ _ us us' collapsed _ ih =>
      rw [List.filter_cons, List.filter_cons, block_node, block_node]
      split
      · exact .folded us us' collapsed ih
      · exact ih
  | @cons b _ _ _ _ below _ _ ih =>
      rw [List.filter_cons, List.filter_cons, block_node, block_node]
      split
      · exact .cons below ih
      · exact ih

/-- **What is written for each of some siblings does not depend on folded content.** -/
theorem SameUnfolded.emitEach_eq (h : SameUnfolded ts us) (threshold : Binary64) (depth : Nat) :
    emitEach threshold depth ts = emitEach threshold depth us := by
  induction h generalizing depth with
  | nil => rfl
  | folded us us' collapsed _ ih =>
      rw [emitEach, emitEach, emit, emit, if_pos collapsed, if_pos collapsed, ih]
      rfl
  | cons _ _ ihBelow ihAfter =>
      rw [emitEach, emitEach, emit, emit, ihBelow, ihAfter]
      rfl

/-! ## Changes that keep the places -/

/-- Canvas order does not look at what a change leaves the places. -/
theorem inOrder_mapAll {u : Block → Block} (hu : ∀ b, (u b).position = b.position) (threshold : Binary64)
    (ts : List Tree) : inOrder threshold (mapAll u ts) = (inOrder threshold ts).map (map u) := by
  have hposition : (fun t : Tree => (map u t).block.position) = fun t => t.block.position := by
    funext t
    cases t with
    | node b us => exact hu b
  rw [inOrder, mapAll_eq_map, Source.sortByPosition_map, hposition]
  rfl

theorem id_mem_of_mem_emit_inOrder {threshold : Binary64} {depth : Nat} {e : Nat × Block}
    (h : e ∈ (inOrder threshold ts).flatMap (·.emit threshold depth)) : e.2.id ∈ idsAll ts := by
  have hperm := (inOrder_perm threshold ts).flatMap_right (·.emit threshold depth)
  exact id_mem_idsAll (snd_mem_blocksAll (mem_preorderAll_of_mem_emit (hperm.mem_iff.mp h)))

end Tree

/-! ## Folding and unfolding -/

/-- The patch that sets the flag and nothing else. -/
def Patch.setCollapsed (collapsed : Bool) : Patch :=
  ⟨.empty, none, some collapsed⟩

namespace Block

variable (id : BlockId) (collapsed : Bool) (b : Block)

theorem position_patchAt_setCollapsed : (b.patchAt id (.setCollapsed collapsed)).position = b.position := by
  unfold patchAt
  split <;> rfl

theorem line_patchAt_setCollapsed : (b.patchAt id (.setCollapsed collapsed)).line = b.line := by
  refine Source.line_congr ?_ ?_
  · exact (patchAt_superficial id _).definition b
  · unfold patchAt
    split <;> rfl

end Block

namespace Forest

variable {f g : Forest} {t u : Tree}

/-- What is written for a group does not depend on folded content. -/
theorem bucketEmitted_of_sameUnfolded (h : Tree.SameUnfolded f.roots g.roots) (threshold : Binary64)
    (k : Bucket) : f.bucketEmitted threshold k = g.bucketEmitted threshold k := by
  have hroots := (h.filter fun b => b.parent.isNone).filter fun b => b.kind.bucket == k
  have hsorted := Tree.flatMap_sortByPosition_emitEach threshold 0
  show (Tree.inOrder threshold _).flatMap _ = (Tree.inOrder threshold _).flatMap _
  rw [← hsorted, ← hsorted, topLevel, topLevel, hroots.emitEach_eq]

/-- **Unfolding undoes folding.** -/
theorem after_fold_unfold (hf : f.Sound) (ht : t ∈ f.subtrees) (hopen : t.block.collapsed = false) :
    (f.after (.update t.id (.setCollapsed true))).after (.update t.id (.setCollapsed false)) = f := by
  have hself : ∀ b ∈ Tree.blocksAll f.roots,
      Block.patchAt t.id (.setCollapsed false) (Block.patchAt t.id (.setCollapsed true) b) = b := by
    intro b hb
    by_cases hid : b.id = t.id
    · obtain rfl : b = t.block := block_eq_of_id_eq hf.distinct hb (List.mem_map_of_mem ht) hid
      rw [Block.patchAt_patchAt, Block.patchAt, if_pos hid]
      exact Block.ext rfl rfl rfl rfl hopen.symm rfl
    · rw [Block.patchAt_patchAt, Block.patchAt, if_neg hid]
  rw [after_update_update hf.distinct, mapBlocks, Tree.mapAll_eq_self hself]

/-- Folding takes no block away and changes no line. -/
theorem map_walk_fold (hf : f.Sound) (id : BlockId) (collapsed : Bool) :
    (f.after (.update id (.setCollapsed collapsed))).walk.map (fun e => (e.1, e.2.id, e.2.line))
      = f.walk.map fun e => (e.1, e.2.id, e.2.line) := by
  rw [walk_eq_preorder, walk_eq_preorder, after_update hf.distinct, preorder, mapBlocks,
    Tree.preorderAll_mapAll, List.map_map]
  refine List.map_congr_left fun e _ => ?_
  have hid := (Block.patchAt_superficial id (.setCollapsed collapsed)).id e.2
  simp only [Function.comp_apply, hid, Block.line_patchAt_setCollapsed]

/-- An update leaves the roots in their groups. -/
theorem rootsIn_after_update (hf : f.Sound) (id : BlockId) (p : Patch) (k : Bucket) :
    (f.after (.update id p)).rootsIn k = Tree.mapAll (Block.patchAt id p) (f.rootsIn k) := by
  have hkind := Tree.kind_map (Block.patchAt_superficial id p)
  rw [rootsIn, after_update hf.distinct, mapBlocks, Tree.mapAll_eq_map, Tree.mapAll_eq_map, rootsIn,
    List.filter_map]
  simp only [Function.comp_def, hkind]

section Fold

variable (hf : f.Sound) (ht : t ∈ f.subtrees) (threshold : Binary64)

include hf ht

/-- **What is written for a tree once a block is folded**: what was written for it before, but nothing of
    the content of the block. The tree itself stands outside that content. -/
theorem map_shown_emit_fold (hu : u ∈ f.subtrees) (houtside : u.id ∉ Tree.idsAll t.children) (depth : Nat) :
    ((u.map (Block.patchAt t.id (.setCollapsed true))).emit threshold depth).map Source.shown
      = ((u.emit threshold depth).filter fun e => e.2.id ∉ Tree.idsAll t.children).map Source.shown := by
  -- Induction down to the block; below it nothing is written.
  induction u using Tree.childrenInduction generalizing depth with
  | node b us ih =>
      have hhead : Source.shown (depth, b.patchAt t.id (.setCollapsed true)) = Source.shown (depth, b) :=
        congrArg (Prod.mk depth) (Block.line_patchAt_setCollapsed t.id true b)
      rw [Tree.map, Tree.emit_node, Tree.emit_node, List.filter_cons_of_pos (by simpa using houtside),
        List.map_cons, List.map_cons, hhead]
      refine congrArg _ ?_
      by_cases hid : b.id = t.id
      · obtain rfl : Tree.node b us = t := Tree.eq_of_id_eq hf.distinct hu ht hid
        have hcollapsed : (b.patchAt (Tree.node b us).id (.setCollapsed true)).collapsed = true := by
          rw [Block.patchAt, if_pos hid]
          rfl
        rw [if_pos hcollapsed, List.filter_eq_nil_iff.mpr]
        intro e he
        split at he
        · cases he
        · exact fun hkept => of_decide_eq_true hkept (Tree.id_mem_of_mem_emit_inOrder he)
      · have hsame : b.patchAt t.id (.setCollapsed true) = b := if_neg hid
        rw [hsame]
        by_cases hcollapsed : b.collapsed = true
        · rw [if_pos hcollapsed, if_pos hcollapsed]
          rfl
        · rw [if_neg hcollapsed, if_neg hcollapsed,
            Tree.inOrder_mapAll (Block.position_patchAt_setCollapsed t.id true), List.flatMap_map,
            List.filter_flatMap, List.map_flatMap, List.map_flatMap]
          refine List.flatMap_congr fun v hv => ?_
          have hv' : v ∈ us := (Tree.inOrder_perm threshold us).mem_iff.mp hv
          have hvf : v ∈ f.subtrees :=
            Tree.mem_subtreesAll_of_mem_below hu (Tree.mem_subtreesAll_of_mem hv')
          refine ih v hv' hvf (fun hinside => ?_) (depth + 1)
          rcases hf.mem_below_of_child ht hu hv' hinside with rfl | hbelow
          · exact hid rfl
          · exact houtside (List.mem_map_of_mem hbelow)

/-- What is written for a group once a block is folded. -/
theorem map_shown_bucketEmitted_fold (k : Bucket) :
    ((f.after (.update t.id (.setCollapsed true))).bucketEmitted threshold k).map Source.shown
      = ((f.bucketEmitted threshold k).filter fun e => e.2.id ∉ Tree.idsAll t.children).map
          Source.shown := by
  have hfolded := valid_iff_sound.mpr (hf.after_update t.id (.setCollapsed true))
  rw [bucketEmitted_eq hfolded, bucketEmitted_eq (valid_iff_sound.mpr hf), rootsIn_after_update hf,
    Tree.inOrder_mapAll (Block.position_patchAt_setCollapsed t.id true), List.flatMap_map,
    List.filter_flatMap, List.map_flatMap, List.map_flatMap]
  refine List.flatMap_congr fun u hu => ?_
  have hroot : u ∈ f.roots := List.mem_of_mem_filter ((Tree.inOrder_perm threshold _).mem_iff.mp hu)
  exact map_shown_emit_fold hf ht threshold (Tree.mem_subtreesAll_of_mem hroot) (hf.root_id_notMem ht hroot) 0

/-- **Folding a block takes its content out of the groups** and leaves the rest of them as it is. -/
theorem map_shown_groups_fold :
    ((f.after (.update t.id (.setCollapsed true))).groups threshold).map (List.map Source.shown)
      = (f.groups threshold).map fun es =>
          (es.filter fun e => e.2.id ∉ Tree.idsAll t.children).map Source.shown := by
  have hfolded := valid_iff_sound.mpr (hf.after_update t.id (.setCollapsed true))
  -- A group is written if it has a root, and the roots are the same.
  have hempty : ∀ k, (f.after (.update t.id (.setCollapsed true))).bucketEmitted threshold k = [] ↔
      f.bucketEmitted threshold k = [] := by
    intro k
    rw [bucketEmitted_eq_nil_iff hfolded, bucketEmitted_eq_nil_iff (valid_iff_sound.mpr hf),
      rootsIn_after_update hf, Tree.mapAll_eq_map, List.map_eq_nil_iff]
  rw [groups, groups, List.filter_map, List.filter_map, List.map_map, List.map_map]
  have hwritten : ∀ k ∈ Bucket.all,
      ((fun es => !es.isEmpty) ∘ (f.after (.update t.id (.setCollapsed true))).bucketEmitted threshold) k
        = ((fun es => !es.isEmpty) ∘ f.bucketEmitted threshold) k := by
    intro k _
    rw [Function.comp_apply, Function.comp_apply, Bool.eq_iff_iff]
    simp [hempty k]
  rw [List.filter_congr hwritten]
  exact List.map_congr_left fun k _ => map_shown_bucketEmitted_fold hf ht threshold k

/-- The source once a block is folded. -/
theorem generate_fold (options : Options) :
    (f.after (.update t.id (.setCollapsed true))).generate options
      = "\n".intercalate ((f.groups options.rowThreshold).map fun es =>
          Source.linesText options.indentWidth (es.filter fun e => e.2.id ∉ Tree.idsAll t.children)) := by
  have hroots : f.roots ≠ [] := by
    intro hnil
    rw [subtrees, hnil, Tree.subtreesAll_nil] at ht
    cases ht
  have hgroups : f.groups options.rowThreshold ≠ [] :=
    mt (groups_eq_nil_iff (valid_iff_sound.mpr hf) options.rowThreshold).mp hroots
  rw [generate_eq_shown, map_shown_groups_fold hf ht, if_neg (mt List.map_eq_nil_iff.mp hgroups), List.map_map]
  congr 1
  exact List.map_congr_left fun es _ => (Source.linesText_eq_shownText _ _).symm

end Fold

/-- **What is folded away does not count for the source, and for nothing but the source.** Forests that are
    equal but for the content of collapsed blocks, whatever stands there, have the same source. If a block
    is folded, the source loses the entries of what the block holds, and the others stay as they are, in
    their order and their groups, while all blocks stay in the forest, at their depths and with their lines.
    Unfolding the block gives the source that there was. -/
theorem folding_hides (options : Options) :
    (∀ f g : Forest, Tree.SameUnfolded f.roots g.roots → f.generate options = g.generate options) ∧
    ∀ f : Forest, f.Valid → ∀ t ∈ f.subtrees, t.block.collapsed = false →
      let g := f.after (.update t.id (.setCollapsed true))
      (g.groups options.rowThreshold).map (List.map Source.shown)
          = (f.groups options.rowThreshold).map (fun es =>
            (es.filter fun e => e.2.id ∉ Tree.idsAll t.children).map Source.shown) ∧
        g.generate options
          = "\n".intercalate ((f.groups options.rowThreshold).map fun es =>
            Source.linesText options.indentWidth (es.filter fun e => e.2.id ∉ Tree.idsAll t.children)) ∧
        g.walk.map (fun e => (e.1, e.2.id, e.2.line)) = f.walk.map (fun e => (e.1, e.2.id, e.2.line)) ∧
        (g.after (.update t.id (.setCollapsed false))).generate options = f.generate options := by
  refine ⟨fun f g h => generate_congr fun k => ?_, fun f hf t ht hopen => ?_⟩
  · rw [bucketEmitted_of_sameUnfolded h]
  · have hsound := valid_iff_sound.mp hf
    refine ⟨map_shown_groups_fold hsound ht _, generate_fold hsound ht options,
      map_walk_fold hsound t.id true, ?_⟩
    rw [after_fold_unfold hsound ht hopen]

/-- The outer loop is folded, and so is the loop inside it, of which the content may as well be deleted. -/
theorem folding_hides_foldedLoop :
    let t := foldedLoop.roots.head (by decide)
    let g := foldedLoop.after (.update "for-1" (.setCollapsed true))
    foldedLoop.Valid ∧ t ∈ foldedLoop.subtrees ∧ t.block.collapsed = false ∧
    (t.id, Tree.idsAll t.children) = ("for-1", ["while-2", "print-3"]) ∧
    Tree.SameUnfolded foldedLoop.roots (foldedLoop.after (.delete "print-3")).roots ∧
    foldedLoop.generate {} = (foldedLoop.after (.delete "print-3")).generate {} ∧
    foldedLoop.generate {} = "import math\n\nfor i in range(5):\n    while True:\n" ∧
    g.generate {} = "import math\n\nfor i in range(5):\n" ∧
    (g.after (.update "for-1" (.setCollapsed false))).generate {} = foldedLoop.generate {} := by
  have hvalid : foldedLoop.Valid := by rfl
  have hmem : foldedLoop.roots.head (by decide) ∈ foldedLoop.subtrees :=
    Tree.mem_subtreesAll_of_mem (List.head_mem _)
  have hsame : Tree.SameUnfolded foldedLoop.roots (foldedLoop.after (.delete "print-3")).roots :=
    .cons (.folded _ _ (by rfl) .nil) (.cons .nil .nil)
  obtain ⟨hgenerate, hfold⟩ := folding_hides {}
  obtain ⟨-, hfolded, -, hunfolded⟩ := hfold foldedLoop hvalid _ hmem (by rfl)
  exact ⟨hvalid, hmem, by rfl, by rfl, hsame, hgenerate _ _ hsame, by decide +kernel,
    hfolded.trans (by decide +kernel), hunfolded⟩

end Forest

end Blockwork
