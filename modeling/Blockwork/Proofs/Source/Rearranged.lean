import Blockwork.Proofs.Source.CanvasOrder
import Blockwork.Proofs.Source.Emission

/-!
# `Blockwork.Proofs.Source.Rearranged`: the canvas decides, not the stored order

Two forests that hold the same blocks in the same places differ only in how siblings are stored. Where
canvas order determines the order of the siblings that are written, the source is the same. The proof
follows the trees: rearranged siblings are the same trees up to what is below them, put in another order,
so sorting brings them into one order, and what is written for each is the same by induction.

## Contents
- `Tree.Rearranged`, equality up to the order of siblings at every level, and `Rearranged.exists_perm`.
- `Forest.hidden_child`: what is right below a block that is written unfolded is not hidden.
- `Tree.flatMap_emit_inOrder`, and `Forest.emit_of_rearranged`: what is written for rearranged trees.
- `Forest.canvas_decides`.
-/

namespace Blockwork

namespace Tree

variable {t u : Tree} {ts us : List Tree} {threshold : Binary64}

/-! ## Rearranged trees -/

/-- Trees that are equal up to the order of the siblings at every level. -/
inductive Rearranged : List Tree → List Tree → Prop where
  | nil : Rearranged [] []
  | cons {b : Block} {us us' ts ts' : List Tree} (below : Rearranged us us') (after : Rearranged ts ts') :
      Rearranged (node b us :: ts) (node b us' :: ts')
  | swap (t u : Tree) (ts : List Tree) : Rearranged (t :: u :: ts) (u :: t :: ts)
  | trans {ts us vs : List Tree} (first : Rearranged ts us) (second : Rearranged us vs) : Rearranged ts vs

theorem Rearranged.refl (ts : List Tree) : Rearranged ts ts := by
  induction ts using siblingInduction with
  | nil => exact .nil
  | cons b us ts ihUs ihTs => exact .cons ihUs ihTs

/-- The same block, with rearranged trees below it. -/
def SameAbove (t u : Tree) : Prop :=
  t.block = u.block ∧ Rearranged t.children u.children

theorem forall₂_sameAbove_trans {vs : List Tree} (h : List.Forall₂ SameAbove ts us)
    (h' : List.Forall₂ SameAbove us vs) : List.Forall₂ SameAbove ts vs := by
  induction h generalizing vs with
  | nil => exact h'
  | cons htu _ ih =>
      cases h' with
      | cons huv hrest => exact .cons ⟨htu.1.trans huv.1, .trans htu.2 huv.2⟩ (ih hrest)

/-- **Rearranged siblings are permuted, and then rearranged below.** -/
theorem Rearranged.exists_perm (h : Rearranged ts us) : ∃ vs, ts.Perm vs ∧ List.Forall₂ SameAbove vs us := by
  induction h with
  | nil => exact ⟨[], List.Perm.refl _, .nil⟩
  | @cons b us us' ts ts' below _ _ ihTs =>
      obtain ⟨vs, hperm, hsame⟩ := ihTs
      exact ⟨node b us :: vs, hperm.cons _, .cons ⟨rfl, below⟩ hsame⟩
  | swap t u ts =>
      exact ⟨u :: t :: ts, List.Perm.swap u t ts, List.forall₂_same.mpr fun v _ => ⟨rfl, .refl _⟩⟩
  | trans _ _ ihFirst ihSecond =>
      obtain ⟨vs, hperm, hsame⟩ := ihFirst
      obtain ⟨ws, hperm', hsame'⟩ := ihSecond
      -- The second permutation may as well be made before the first descent.
      have hcomp := congrFun (congrFun (List.forall₂_comp_perm_eq_perm_comp_forall₂ (r := SameAbove)) vs) ws
      obtain ⟨xs, hpermXs, hsameXs⟩ := hcomp.mp ⟨_, hsame, hperm'⟩
      exact ⟨xs, hperm.trans hpermXs, forall₂_sameAbove_trans hsameXs hsame'⟩

/-! ## What is written for rearranged trees -/

/-- **What is written for permuted siblings, each of them written alike, is the same.** -/
theorem flatMap_emit_inOrder {depth : Nat} {vs : List Tree}
    (hts : Source.Determinate threshold (·.block.position) ts) (hperm : ts.Perm vs)
    (hsame : List.Forall₂ (fun t u : Tree => t.block = u.block ∧
      t.emit threshold depth = u.emit threshold depth) vs us) :
    (inOrder threshold ts).flatMap (·.emit threshold depth)
      = (inOrder threshold us).flatMap (·.emit threshold depth) := by
  have horder : inOrder threshold ts = inOrder threshold vs := hts.eq_of_perm hperm
  have hsorted : List.Forall₂ (fun t u : Tree => t.block = u.block ∧
      t.emit threshold depth = u.emit threshold depth) (inOrder threshold vs) (inOrder threshold us) := by
    refine Source.forall₂_insertionSort ?_ hsame
    rintro t u t' u' ⟨hblock, -⟩ ⟨hblock', -⟩
    simp only [hblock, hblock']
  rw [horder, List.flatMap_def, List.flatMap_def]
  have htexts := List.forall₂_map_left_iff.mpr (List.forall₂_map_right_iff.mpr (hsorted.imp fun _ _ h => h.2))
  rw [List.forall₂_eq_eq_eq] at htexts
  rw [htexts]

end Tree

namespace Forest

variable {f g : Forest} {t u : Tree}

/-- What stands right below a block is hidden only if that block is collapsed or hidden itself. -/
theorem hidden_child (hf : f.Valid) (ht : t ∈ f.subtrees) (hu : u ∈ t.children) (h : f.Hidden u.block) :
    t.block.collapsed = true ∨ f.Hidden t.block := by
  obtain ⟨s, hs, hcollapsed, hmem⟩ := h
  rcases (valid_iff_sound.mp hf).mem_below_of_child hs ht hu (Tree.id_mem_idsAll hmem) with rfl | hbelow
  · exact Or.inl hcollapsed
  · exact Or.inr ⟨s, hs, hcollapsed, List.mem_map_of_mem hbelow⟩

/-- **What is written for a tree that is not hidden does not depend on how siblings are stored.** -/
theorem emit_of_rearranged (hf : f.Valid) {threshold : Binary64}
    (hbelow : ∀ t ∈ f.subtrees, ¬f.Hidden t.block → t.block.collapsed = false →
      Source.Determinate threshold (fun u : Tree => u.block.position) t.children)
    (ht : t ∈ f.subtrees) (hvisible : ¬f.Hidden t.block) (h : Tree.SameAbove t u) (depth : Nat) :
    t.emit threshold depth = u.emit threshold depth := by
  induction t using Tree.childrenInduction generalizing u depth with
  | node b ts ih =>
      obtain ⟨c, us⟩ := u
      obtain ⟨hblock, hchildren⟩ := h
      obtain rfl : b = c := hblock
      rw [Tree.emit_node, Tree.emit_node]
      by_cases hcollapsed : b.collapsed = true
      · rw [if_pos hcollapsed, if_pos hcollapsed]
      · have hopen : b.collapsed = false := Bool.eq_false_iff.mpr hcollapsed
        rw [if_neg hcollapsed, if_neg hcollapsed]
        -- First the children in another order, then what stands below each of them.
        obtain ⟨vs, hperm, hsame⟩ := hchildren.exists_perm
        have hdeterminate := hbelow _ ht hvisible hopen
        refine congrArg _ (Tree.flatMap_emit_inOrder hdeterminate hperm ?_)
        rw [List.forall₂_iff_zip] at hsame ⊢
        refine ⟨hsame.1, fun {v w} hmem => ⟨(hsame.2 hmem).1, ?_⟩⟩
        have hv : v ∈ ts := hperm.mem_iff.mpr (List.of_mem_zip hmem).1
        have hv' : v ∈ f.subtrees := Tree.mem_subtreesAll_of_mem_below ht (Tree.mem_subtreesAll_of_mem hv)
        refine ih v hv hv' (fun hhidden => ?_) (hsame.2 hmem) (depth + 1)
        exact (hidden_child hf ht hv hhidden).elim hcollapsed hvisible

/-- Roots are not hidden. -/
theorem not_hidden_root (hf : f.Valid) (ht : t ∈ f.roots) : ¬f.Hidden t.block := by
  rintro ⟨s, hs, -, hmem⟩
  exact (valid_iff_sound.mp hf).root_id_notMem hs ht (Tree.id_mem_idsAll hmem)

/-- **What is written for a group does not depend on how siblings are stored.** -/
theorem bucketEmitted_of_rearranged (hf : f.Valid) (hg : g.Valid) (h : Tree.Rearranged f.roots g.roots)
    {threshold : Binary64} {k : Bucket}
    (hroots : Source.Determinate threshold (fun t : Tree => t.block.position) (f.rootsIn k))
    (hbelow : ∀ t ∈ f.subtrees, ¬f.Hidden t.block → t.block.collapsed = false →
      Source.Determinate threshold (fun u : Tree => u.block.position) t.children) :
    f.bucketEmitted threshold k = g.bucketEmitted threshold k := by
  obtain ⟨vs, hperm, hsame⟩ := h.exists_perm
  have hgroup := List.rel_filter (p := fun t : Tree => t.block.kind.bucket == k)
    (q := fun t : Tree => t.block.kind.bucket == k) (fun _ _ h => by simp only [h.1]) hsame
  rw [bucketEmitted_eq hf, bucketEmitted_eq hg]
  refine Tree.flatMap_emit_inOrder hroots (hperm.filter _) ?_
  rw [List.forall₂_iff_zip] at hgroup ⊢
  refine ⟨hgroup.1, fun {v w} hmem => ⟨(hgroup.2 hmem).1, ?_⟩⟩
  have hv : v ∈ f.roots := hperm.mem_iff.mpr (List.mem_of_mem_filter (List.of_mem_zip hmem).1)
  exact emit_of_rearranged hf hbelow (Tree.mem_subtreesAll_of_mem hv) (not_hidden_root hf hv)
    (hgroup.2 hmem) 0

/-- **The canvas decides, not the stored order.** If canvas order is determinate among the roots of each
    group and below every block that is written unfolded, rearranging the siblings does not change the
    source. Where it is merely coherent, siblings are sorted stably, and there is no other stable sort; and
    it is coherent if the siblings stand in rows. -/
theorem canvas_decides (options : Options) :
    (∀ f g : Forest, f.Valid → g.Valid → Tree.Rearranged f.roots g.roots →
      (∀ k, Source.Determinate options.rowThreshold (fun t : Tree => t.block.position) (f.rootsIn k)) →
      (∀ t ∈ f.subtrees, ¬f.Hidden t.block → t.block.collapsed = false →
        Source.Determinate options.rowThreshold (fun u : Tree => u.block.position) t.children) →
      f.generate options = g.generate options) ∧
    (∀ siblings : List Tree,
      Source.Coherent options.rowThreshold (fun t : Tree => t.block.position) siblings →
      ∀ sorted, Source.StableSort options.rowThreshold (fun t : Tree => t.block.position) siblings sorted ↔
        sorted = Tree.inOrder options.rowThreshold siblings) ∧
    (∀ (siblings : List Tree) (row : Tree → Nat),
      Source.InRows options.rowThreshold (fun t : Tree => t.block.position) siblings row →
      Source.Coherent options.rowThreshold (fun t : Tree => t.block.position) siblings) := by
  refine ⟨fun f g hf hg h hroots hbelow => ?_, fun siblings hcoherent sorted => ?_, fun _ _ h => h.coherent⟩
  · refine generate_congr fun k => ?_
    rw [bucketEmitted_of_rearranged hf hg h (hroots k) hbelow]
  · constructor
    · exact fun hsorted => hsorted.unique hcoherent.stableSort
    · rintro rfl
      exact hcoherent.stableSort

/-- Two loops, and two statements of one row in the lower one, put down in no particular order. -/
def putDown : Workspace :=
  (Workspace.empty.applyAll
    [.insert "for" ⟨0, 200⟩, .insert "while" ⟨0, 100⟩, .insert "break" ⟨40, 300⟩,
      .insert "continue" ⟨60, 280⟩, .group "for-1" "break-3", .group "for-1" "continue-4"]).1

/-- The same after the lower loop was taken into the upper one and out again, and a statement out of its
    loop and in again. -/
def takenOut : Workspace :=
  (putDown.applyAll
    [.group "while-2" "for-1", .ungroup "for-1", .ungroup "break-3", .group "for-1" "break-3"]).1

/-- Siblings are stored in another order there, and the source is the same. -/
theorem canvas_decides_takenOut :
    putDown.forest.Valid ∧ takenOut.forest.Valid ∧
    Tree.Rearranged putDown.forest.roots takenOut.forest.roots ∧
    (∀ k, Source.Determinate 50 (fun t : Tree => t.block.position) (putDown.forest.rootsIn k)) ∧
    (∀ t ∈ putDown.forest.subtrees, ¬putDown.forest.Hidden t.block → t.block.collapsed = false →
      Source.Determinate 50 (fun u : Tree => u.block.position) t.children) ∧
    putDown.forest.ids = ["for-1", "break-3", "continue-4", "while-2"] ∧
    takenOut.forest.ids = ["while-2", "for-1", "continue-4", "break-3"] ∧
    putDown.forest.generate {} = takenOut.forest.generate {} ∧
    putDown.forest.generate {} = "while True:\nfor i in range(5):\n    break\n    continue\n" ∧
    (∀ sorted, Source.StableSort 50 (fun t : Tree => t.block.position) putDown.forest.roots sorted ↔
      sorted = Tree.inOrder 50 putDown.forest.roots) := by
  have hvalid : putDown.forest.Valid := by rfl
  have hvalid' : takenOut.forest.Valid := by rfl
  have hrearranged : Tree.Rearranged putDown.forest.roots takenOut.forest.roots :=
    .trans (.cons (.swap _ _ _) (.refl _)) (.swap _ _ _)
  have hroots : ∀ k,
      Source.Determinate 50 (fun t : Tree => t.block.position) (putDown.forest.rootsIn k) := by
    intro k
    cases k <;> decide +kernel
  have hbelow : ∀ t ∈ putDown.forest.subtrees, ¬putDown.forest.Hidden t.block →
      t.block.collapsed = false →
      Source.Determinate 50 (fun u : Tree => u.block.position) t.children := by
    decide +kernel
  have hcoherent : Source.Coherent 50 (fun t : Tree => t.block.position) putDown.forest.roots := by
    decide +kernel
  obtain ⟨hsource, hsorted, -⟩ := canvas_decides {}
  exact ⟨hvalid, hvalid', hrearranged, hroots, hbelow, by decide, by decide,
    hsource _ _ hvalid hvalid' hrearranged hroots hbelow, by decide +kernel, hsorted _ hcoherent⟩

end Forest

end Blockwork
