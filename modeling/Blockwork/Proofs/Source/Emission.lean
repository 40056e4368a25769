import Blockwork.Proofs.Forest.Valid
import Blockwork.Proofs.Source.Order
import Blockwork.Source.Generate
import Blockwork.Workspace

/-!
# `Blockwork.Proofs.Source.Emission`: the source shows what is not folded away

The source is laid out twice here. `Tree.render` lays out one tree the way it reads: its own line,
then, unless it is collapsed, the trees below it in canvas order one level deeper. `Tree.HiddenIn`
says which blocks are folded away and looks neither at order nor at text. What is written agrees with
both: with the first as a text, and with the second as a collection of blocks.

## Contents
- `Tree.inOrder` and `Tree.emit_node`: what is written for a block and its content.
- `Tree.render`, and `Tree.linesText_emit`: the lines that are written are the tree laid out.
- `Tree.HiddenIn`, and `Tree.emit_perm`: each block that is not hidden is written once.
- `Draft.foldl_write`: writing group after group, and `Forest.generate_eq_groups`, the source it makes.
- `Source.shown`, and `Forest.generate_congr`: what the source of a forest depends on.
- `Forest.rootsIn`, `Forest.bucketText`, and `Forest.generate_shows_visible`.
-/

namespace Blockwork

namespace Source

theorem toList_lineText (indentWidth : Nat) (e : Nat × Block) :
    (lineText indentWidth e).toList
      = List.replicate (e.1 * indentWidth) ' ' ++ e.2.line.toList ++ ['\n'] := by
  rw [lineText, spaces, String.toList_append, String.toList_append, String.toList_ofList]
  rfl

theorem linesText_cons (indentWidth : Nat) (e : Nat × Block) (es : List (Nat × Block)) :
    linesText indentWidth (e :: es) = lineText indentWidth e ++ linesText indentWidth es := by
  rw [linesText, List.map_cons, String.join_cons]
  rfl

theorem linesText_append (indentWidth : Nat) (es es' : List (Nat × Block)) :
    linesText indentWidth (es ++ es') = linesText indentWidth es ++ linesText indentWidth es' := by
  rw [linesText, List.map_append, String.join_append]
  rfl

theorem linesText_ne_empty (indentWidth : Nat) {es : List (Nat × Block)} (h : es ≠ []) :
    linesText indentWidth es ≠ "" := by
  cases es with
  | nil => exact absurd rfl h
  | cons e es =>
      intro hempty
      rw [linesText_cons, String.append_eq_empty_iff, lineText, String.append_eq_empty_iff] at hempty
      exact absurd hempty.1.2 (by decide)

theorem linesText_flatMap {α : Type} (indentWidth : Nat) (xs : List α) (f : α → List (Nat × Block)) :
    linesText indentWidth (xs.flatMap f) = String.join (xs.map fun x => linesText indentWidth (f x)) := by
  induction xs with
  | nil => rfl
  | cons x xs ih => rw [List.flatMap_cons, linesText_append, ih, List.map_cons, String.join_cons]

/-! ## What is seen of a block -/

/-- What is seen of an emitted block. -/
def shown (e : Nat × Block) : Nat × String :=
  (e.1, e.2.line)

/-- The lines of what is seen. -/
def shownText (indentWidth : Nat) (ls : List (Nat × String)) : String :=
  String.join (ls.map fun l => spaces (l.1 * indentWidth) ++ l.2 ++ "\n")

theorem linesText_eq_shownText (indentWidth : Nat) (es : List (Nat × Block)) :
    linesText indentWidth es = shownText indentWidth (es.map shown) := by
  rw [linesText, shownText, List.map_map]
  rfl

end Source

namespace Tree

/-! ## Siblings in canvas order -/

/-- Siblings in canvas order. -/
def inOrder (threshold : Binary64) (ts : List Tree) : List Tree :=
  Source.sortByPosition threshold (·.block.position) ts

theorem inOrder_perm (threshold : Binary64) (ts : List Tree) : (inOrder threshold ts).Perm ts :=
  Source.sortByPosition_perm threshold _ ts

theorem emitEach_eq_map (threshold : Binary64) (depth : Nat) (ts : List Tree) :
    emitEach threshold depth ts = ts.map fun t => (t.block.position, t.emit threshold depth) := by
  induction ts with
  | nil => rw [emitEach, List.map_nil]
  | cons t ts ih => rw [emitEach, ih, List.map_cons]

/-- Sorting what is written for each of some siblings is writing the siblings sorted. -/
theorem flatMap_sortByPosition_emitEach (threshold : Binary64) (depth : Nat) (ts : List Tree) :
    (Source.sortByPosition threshold Prod.fst (emitEach threshold depth ts)).flatMap Prod.snd
      = (inOrder threshold ts).flatMap (·.emit threshold depth) := by
  rw [emitEach_eq_map, Source.sortByPosition_map, List.flatMap_map]
  rfl

/-- What is written for a block: the block itself, then its content in canvas order. -/
theorem emit_node (threshold : Binary64) (depth : Nat) (b : Block) (ts : List Tree) :
    (node b ts).emit threshold depth =
      (depth, b) ::
        if b.collapsed then [] else (inOrder threshold ts).flatMap (·.emit threshold (depth + 1)) := by
  rw [emit, flatMap_sortByPosition_emitEach]

/-! ## The layout of a tree -/

theorem size_lt_of_mem {t : Tree} {ts : List Tree} (h : t ∈ ts) (b : Block) :
    t.size < (node b ts).size := by
  have hle : t.size ≤ sizeAll ts := by
    induction ts with
    | nil => exact absurd h (by simp)
    | cons u ts ih =>
        rw [sizeAll]
        rcases List.mem_cons.mp h with rfl | h
        · exact Nat.le_add_right _ _
        · exact Nat.le_trans (ih h) (Nat.le_add_left _ _)
  rw [size]
  omega

/-- A tree laid out from a level on: the indented line of its block and, unless the block is
    collapsed, the trees below it in canvas order, one level deeper. -/
def render (indentWidth : Nat) (threshold : Binary64) (depth : Nat) : Tree → String
  | node b ts =>
    Source.spaces (depth * indentWidth) ++ b.line ++ "\n" ++
      if b.collapsed then ""
      else
        String.join ((inOrder threshold ts).attach.map fun t =>
          render indentWidth threshold (depth + 1) t.val)
termination_by t => t.size
decreasing_by exact size_lt_of_mem ((inOrder_perm _ ts).mem_iff.mp t.property) b

theorem render_node (indentWidth : Nat) (threshold : Binary64) (depth : Nat) (b : Block)
    (ts : List Tree) :
    (node b ts).render indentWidth threshold depth =
      Source.lineText indentWidth (depth, b) ++
        if b.collapsed then ""
        else
          String.join ((inOrder threshold ts).map (·.render indentWidth threshold (depth + 1))) := by
  rw [render, List.attach_map_val (f := fun t => render indentWidth threshold (depth + 1) t)]
  rfl

/-- **The lines written for a tree are the tree laid out.** -/
theorem linesText_emit (indentWidth : Nat) (threshold : Binary64) (depth : Nat) (t : Tree) :
    Source.linesText indentWidth (t.emit threshold depth) = t.render indentWidth threshold depth := by
  induction t using childrenInduction generalizing depth with
  | node b ts ih =>
      rw [emit_node, render_node, Source.linesText_cons]
      congr 1
      by_cases hcollapsed : b.collapsed = true
      · rw [if_pos hcollapsed, if_pos hcollapsed]
        rfl
      · rw [if_neg hcollapsed, if_neg hcollapsed, Source.linesText_flatMap]
        congr 1
        exact List.map_congr_left fun t ht => ih t ((inOrder_perm _ ts).mem_iff.mp ht) (depth + 1)

/-! ## Blocks that are folded away -/

/-- A block is hidden if a collapsed block holds it, directly or further down. -/
def HiddenIn (ts : List Tree) (b : Block) : Prop :=
  ∃ t ∈ subtreesAll ts, t.block.collapsed = true ∧ b ∈ blocksAll t.children

instance (ts : List Tree) (b : Block) : Decidable (HiddenIn ts b) :=
  inferInstanceAs (Decidable (∃ t ∈ subtreesAll ts, t.block.collapsed = true ∧ b ∈ blocksAll t.children))

theorem hiddenIn_cons {c b : Block} {us ts : List Tree} :
    HiddenIn (node c us :: ts) b ↔
      (c.collapsed = true ∧ b ∈ blocksAll us) ∨ HiddenIn us b ∨ HiddenIn ts b := by
  unfold HiddenIn
  rw [subtreesAll_cons]
  simp only [List.mem_cons, List.mem_append, or_and_right, exists_or, exists_eq_left, block_node,
    children_node]

theorem HiddenIn.mem_blocksAll {ts : List Tree} {b : Block} (h : HiddenIn ts b) :
    b ∈ blocksAll ts := by
  induction ts using siblingInduction with
  | nil =>
      obtain ⟨t, ht, -⟩ := h
      exact absurd ht (by simp [subtreesAll])
  | cons c us ts ihUs ihTs =>
      rw [blocksAll_cons, List.mem_cons, List.mem_append]
      rcases hiddenIn_cons.mp h with ⟨-, hb⟩ | hb | hb
      · exact Or.inr (Or.inl hb)
      · exact Or.inr (Or.inl (ihUs hb))
      · exact Or.inr (Or.inr (ihTs hb))

theorem id_mem_idsAll {ts : List Tree} {b : Block} (h : b ∈ blocksAll ts) : b.id ∈ idsAll ts := by
  rw [← map_id_blocksAll]
  exact List.mem_map_of_mem h

theorem snd_mem_blocksAll {depth : Nat} {ts : List Tree} {e : Nat × Block}
    (h : e ∈ preorderAll depth ts) : e.2 ∈ blocksAll ts := by
  rw [← map_snd_preorderAll depth]
  exact List.mem_map_of_mem h

/-- What is written for some siblings is in their walk. -/
theorem mem_preorderAll_of_mem_emit {threshold : Binary64} {depth : Nat} {ts : List Tree}
    {e : Nat × Block} (h : e ∈ ts.flatMap (·.emit threshold depth)) : e ∈ preorderAll depth ts := by
  induction ts using siblingInduction generalizing depth with
  | nil => cases h
  | cons b us ts ihUs ihTs =>
      rw [List.flatMap_cons, emit_node, List.cons_append, List.mem_cons, List.mem_append] at h
      rw [preorderAll_cons, List.mem_cons, List.mem_append]
      rcases h with rfl | h | h
      · exact Or.inl rfl
      · split at h
        · cases h
        · exact Or.inr (Or.inl (ihUs (((inOrder_perm threshold us).flatMap_right _).mem_iff.mp h)))
      · exact Or.inr (Or.inr (ihTs h))

/-- **What is written for some siblings, up to order: the entries of their walk that are not
    hidden.** -/
theorem emit_perm (threshold : Binary64) (depth : Nat) {ts : List Tree} (hids : (idsAll ts).Nodup) :
    (ts.flatMap (·.emit threshold depth)).Perm
      ((preorderAll depth ts).filter fun e => ¬HiddenIn ts e.2) := by
  induction ts using siblingInduction generalizing depth with
  | nil => exact List.Perm.refl []
  | cons c us ts ihUs ihTs =>
      rw [idsAll_cons, List.nodup_cons, List.mem_append, not_or, List.nodup_append] at hids
      obtain ⟨⟨hcUs, hcTs⟩, hus, hts, hdisjoint⟩ := hids
      -- A block is hidden in the whole by what stands above it, and above it stands only its own part.
      have hc : ¬HiddenIn (node c us :: ts) c := by
        rw [hiddenIn_cons]
        rintro (⟨-, h⟩ | h | h)
        · exact hcUs (id_mem_idsAll h)
        · exact hcUs (id_mem_idsAll h.mem_blocksAll)
        · exact hcTs (id_mem_idsAll h.mem_blocksAll)
      have hinside : ∀ e ∈ preorderAll (depth + 1) us,
          (HiddenIn (node c us :: ts) e.2 ↔ c.collapsed = true ∨ HiddenIn us e.2) := by
        intro e he
        have hmem : e.2 ∈ blocksAll us := snd_mem_blocksAll he
        have hnot : ¬HiddenIn ts e.2 := fun h =>
          hdisjoint _ (id_mem_idsAll hmem) _ (id_mem_idsAll h.mem_blocksAll) rfl
        rw [hiddenIn_cons]
        simp only [hmem, hnot, and_true, or_false]
      have hafter : ∀ e ∈ preorderAll depth ts,
          (HiddenIn (node c us :: ts) e.2 ↔ HiddenIn ts e.2) := by
        intro e he
        have hmem : e.2 ∈ blocksAll ts := snd_mem_blocksAll he
        have hnot : e.2 ∉ blocksAll us := fun h =>
          hdisjoint _ (id_mem_idsAll h) _ (id_mem_idsAll hmem) rfl
        have hnot' : ¬HiddenIn us e.2 := fun h => hnot h.mem_blocksAll
        rw [hiddenIn_cons]
        simp only [hnot, hnot', and_false, false_or]
      rw [List.flatMap_cons, emit_node, preorderAll_cons, List.cons_append,
        List.filter_cons_of_pos (by simpa using hc), List.filter_append]
      refine List.Perm.cons _ (List.Perm.append ?_ ?_)
      · by_cases hcollapsed : c.collapsed = true
        · rw [if_pos hcollapsed, List.filter_eq_nil_iff.mpr]
          intro e he
          simp [hinside e he, hcollapsed]
        · rw [if_neg hcollapsed, List.filter_congr (q := fun e => ¬HiddenIn us e.2)]
          · exact ((inOrder_perm threshold us).flatMap_right _).trans (ihUs (depth + 1) hus)
          · intro e he
            simp [hinside e he, hcollapsed]
      · rw [List.filter_congr (q := fun e => ¬HiddenIn ts e.2)]
        · exact ihTs depth hts
        · intro e he
          simp [hafter e he]

theorem emit_ne_nil (threshold : Binary64) (depth : Nat) (t : Tree) : t.emit threshold depth ≠ [] := by
  cases t with
  | node b ts =>
      rw [emit_node]
      exact List.cons_ne_nil _ _

end Tree

/-! ## Writing group after group -/

namespace Draft

/-- The draft that consists of the texts of some groups. -/
def ofTexts (texts : List String) : Draft :=
  ⟨"\n".intercalate texts, !texts.isEmpty⟩

theorem foldl_linesText (width : Nat) (threshold : Binary64) (roots : List Tree) (text : String) :
    roots.foldl (fun text t => text ++ Source.linesText width (t.emit threshold 0)) text
      = text ++ Source.linesText width (roots.flatMap (·.emit threshold 0)) := by
  induction roots generalizing text with
  | nil => exact String.append_empty.symm
  | cons t roots ih =>
      rw [List.foldl_cons, ih, List.flatMap_cons, Source.linesText_append, String.append_assoc]

/-- The texts of the groups that are not empty. -/
def textsOf (options : Options) (buckets : List (List Tree)) : List String :=
  ((buckets.map (·.flatMap (·.emit options.rowThreshold 0))).filter (!·.isEmpty)).map
    (Source.linesText options.indentWidth)

/-- **One step**: a group adds its text, if it has trees. -/
theorem write_ofTexts (options : Options) (texts : List String) (roots : List Tree) :
    (ofTexts texts).write options roots = ofTexts (texts ++ textsOf options [roots]) := by
  cases roots with
  | nil => exact congrArg ofTexts (List.append_nil texts).symm
  | cons t roots =>
      have hemitted : (t :: roots).flatMap (·.emit options.rowThreshold 0) ≠ [] := fun hnil =>
        t.emit_ne_nil options.rowThreshold 0 (List.flatMap_eq_nil_iff.mp hnil t List.mem_cons_self)
      have htexts : textsOf options [t :: roots]
          = [Source.linesText options.indentWidth ((t :: roots).flatMap (·.emit options.rowThreshold 0))] := by
        rw [textsOf, List.map_singleton, List.filter_cons_of_pos (by simpa using hemitted), List.filter_nil,
          List.map_singleton]
      rw [htexts, write, if_neg (by simp)]
      simp only [foldl_linesText]
      cases texts with
      | nil =>
          rw [List.nil_append, ofTexts, ofTexts, String.intercalate_singleton]
          exact congrArg (Draft.mk · true) String.empty_append
      | cons text texts =>
          rw [ofTexts, ofTexts, String.intercalate_append_of_ne_nil (by simp) (by simp),
            String.intercalate_singleton]
          rfl

/-- **All steps.** -/
theorem foldl_write (options : Options) (buckets : List (List Tree)) (texts : List String) :
    buckets.foldl (write options) (ofTexts texts) = ofTexts (texts ++ textsOf options buckets) := by
  induction buckets generalizing texts with
  | nil => exact congrArg ofTexts (List.append_nil texts).symm
  | cons roots buckets ih =>
      have htexts : textsOf options (roots :: buckets)
          = textsOf options [roots] ++ textsOf options buckets := by
        rw [textsOf, textsOf, textsOf, ← List.map_append, ← List.filter_append, ← List.map_append,
          List.singleton_append]
      rw [List.foldl_cons, write_ofTexts, ih, htexts, List.append_assoc]

theorem text_ofTexts_ne_empty {text : String} (h : text ≠ "") (texts : List String) :
    (ofTexts (text :: texts)).text ≠ "" := by
  rw [ofTexts]
  cases texts with
  | nil => rwa [String.intercalate_singleton]
  | cons text' texts =>
      rw [String.intercalate_cons_cons, Ne, String.append_eq_empty_iff, String.append_eq_empty_iff]
      exact fun hempty => h hempty.1.1

end Draft

namespace Forest

variable {f : Forest}

/-! ## Groups -/

/-- The blocks that are written for a group. -/
def bucketEmitted (threshold : Binary64) (f : Forest) (bucket : Bucket) : List (Nat × Block) :=
  (f.bucketRoots threshold bucket).flatMap (·.emit threshold 0)

/-- The blocks written for each group that is not empty. -/
def groups (threshold : Binary64) (f : Forest) : List (List (Nat × Block)) :=
  (Bucket.all.map (f.bucketEmitted threshold)).filter (!·.isEmpty)

/-- The roots of a group. -/
def rootsIn (f : Forest) (bucket : Bucket) : List Tree :=
  f.roots.filter (·.block.kind.bucket == bucket)

/-- A group laid out: its roots in canvas order, one after the other. -/
def bucketText (options : Options) (f : Forest) (bucket : Bucket) : String :=
  String.join ((Tree.inOrder options.rowThreshold (f.rootsIn bucket)).map
    (·.render options.indentWidth options.rowThreshold 0))

/-- A block is hidden if a collapsed block holds it, directly or further down. -/
def Hidden (f : Forest) (b : Block) : Prop :=
  Tree.HiddenIn f.roots b

instance (f : Forest) (b : Block) : Decidable (f.Hidden b) :=
  inferInstanceAs (Decidable (Tree.HiddenIn f.roots b))

/-- In a valid forest no root claims a parent, so all of them are at the top level. -/
theorem topLevel_eq_roots (hf : f.Valid) : f.topLevel = f.roots := by
  obtain ⟨hroots, -, -⟩ := Tree.hangsAll_iff.mp (valid_iff_sound.mp hf).hangs
  refine List.filter_eq_self.mpr fun t ht => ?_
  rw [hroots t ht]
  rfl

theorem bucketEmitted_eq (hf : f.Valid) (threshold : Binary64) (bucket : Bucket) :
    f.bucketEmitted threshold bucket
      = (Tree.inOrder threshold (f.rootsIn bucket)).flatMap (·.emit threshold 0) := by
  rw [bucketEmitted, bucketRoots, topLevel_eq_roots hf]
  rfl

theorem linesText_bucketEmitted (hf : f.Valid) (options : Options) (bucket : Bucket) :
    Source.linesText options.indentWidth (f.bucketEmitted options.rowThreshold bucket)
      = f.bucketText options bucket := by
  rw [bucketEmitted_eq hf, Source.linesText_flatMap, bucketText]
  congr 1
  exact List.map_congr_left fun t _ => Tree.linesText_emit _ _ 0 t

/-- Something is written for a group exactly if it has a root. -/
theorem bucketEmitted_eq_nil_iff (hf : f.Valid) (threshold : Binary64) (bucket : Bucket) :
    f.bucketEmitted threshold bucket = [] ↔ f.rootsIn bucket = [] := by
  rw [bucketEmitted_eq hf, List.flatMap_eq_nil_iff]
  constructor
  · intro h
    refine List.eq_nil_iff_forall_not_mem.mpr fun t ht => ?_
    have hnil := h t ((Tree.inOrder_perm _ _).mem_iff.mpr ht)
    cases t with
    | node b ts =>
        rw [Tree.emit_node] at hnil
        exact absurd hnil (List.cons_ne_nil _ _)
  · intro h t ht
    rw [(Tree.inOrder_perm _ _).mem_iff, h] at ht
    exact absurd ht (by simp)

/-- The texts of the groups that are written. -/
theorem map_linesText_groups (hf : f.Valid) (options : Options) :
    (f.groups options.rowThreshold).map (Source.linesText options.indentWidth)
      = (Bucket.all.filter fun k => f.rootsIn k ≠ []).map (f.bucketText options) := by
  rw [groups, List.filter_map, List.map_map]
  have hfilter : Bucket.all.filter ((fun es => !es.isEmpty) ∘ f.bucketEmitted options.rowThreshold)
      = Bucket.all.filter fun k => f.rootsIn k ≠ [] := by
    refine List.filter_congr fun k _ => ?_
    have hiff := bucketEmitted_eq_nil_iff hf options.rowThreshold k
    rw [← List.isEmpty_iff] at hiff
    by_cases hempty : f.rootsIn k = []
    · simp [hempty, hiff.mpr hempty]
    · simp [hempty, mt hiff.mp hempty]
  rw [hfilter]
  exact List.map_congr_left fun k _ => linesText_bucketEmitted hf options k

/-- Every root is in one group. -/
theorem flatMap_rootsIn_perm (f : Forest) : (Bucket.all.flatMap f.rootsIn).Perm f.roots := by
  classical
  refine List.perm_iff_count.mpr fun t => ?_
  have hcount : ∀ k, (f.rootsIn k).count t
      = if t.block.kind.bucket = k then f.roots.count t else 0 := by
    intro k
    by_cases hk : t.block.kind.bucket = k
    · rw [if_pos hk, rootsIn, List.count_filter (by simpa using hk)]
    · rw [if_neg hk, List.count_eq_zero]
      intro ht
      exact hk (by simpa using (List.mem_filter.mp ht).2)
  simp only [Bucket.all, List.flatMap_cons, List.flatMap_nil, List.count_append, hcount]
  cases t.block.kind.bucket <;> simp

/-- **What is written for the whole forest, up to order: the entries of the walk that are not
    hidden.** -/
theorem emitted_perm (hf : f.Valid) (threshold : Binary64) :
    (Bucket.all.flatMap (f.bucketEmitted threshold)).Perm (f.walk.filter fun e => ¬f.Hidden e.2) := by
  have hbuckets : (Bucket.all.flatMap (f.bucketEmitted threshold)).Perm
      (Bucket.all.flatMap fun k => (f.rootsIn k).flatMap (·.emit threshold 0)) := by
    refine List.Perm.flatMap_left _ fun k _ => ?_
    rw [bucketEmitted_eq hf]
    exact (Tree.inOrder_perm threshold _).flatMap_right _
  rw [← List.flatMap_assoc] at hbuckets
  rw [walk_eq_preorder]
  exact hbuckets.trans ((f.flatMap_rootsIn_perm.flatMap_right _).trans
    (Tree.emit_perm threshold 0 (valid_iff_sound.mp hf).distinct))

/-! ## The source -/

/-- The groups are everything that is written. -/
theorem flatten_groups (threshold : Binary64) (f : Forest) :
    (f.groups threshold).flatten = Bucket.all.flatMap (f.bucketEmitted threshold) := by
  rw [groups, List.flatten_filter_not_isEmpty, List.flatMap_def]

theorem groups_eq_nil_iff (hf : f.Valid) (threshold : Binary64) :
    f.groups threshold = [] ↔ f.roots = [] := by
  rw [groups, List.filter_map, List.map_eq_nil_iff, List.filter_eq_nil_iff]
  constructor
  · intro h
    have hnone : ∀ k ∈ Bucket.all, f.rootsIn k = [] := by
      intro k hk
      have hwritten := h k hk
      rw [← bucketEmitted_eq_nil_iff hf threshold]
      simpa using hwritten
    have hperm := f.flatMap_rootsIn_perm
    rw [List.flatMap_eq_nil_iff.mpr hnone] at hperm
    exact hperm.nil_eq.symm
  · intro h k _
    have hrootsIn : f.rootsIn k = [] := by rw [rootsIn, h, List.filter_nil]
    simp [(bucketEmitted_eq_nil_iff hf threshold k).mpr hrootsIn]

/-- **The source is the texts of the groups that are not empty**, with a line feed between two of them, or
    the placeholder if there is no such group. -/
theorem generate_eq_groups (options : Options) (f : Forest) :
    f.generate options = match f.groups options.rowThreshold with
      | [] => options.placeholder
      | groups => "\n".intercalate (groups.map (Source.linesText options.indentWidth)) := by
  have htexts : Draft.textsOf options (Bucket.all.map (f.bucketRoots options.rowThreshold))
      = (f.groups options.rowThreshold).map (Source.linesText options.indentWidth) := by
    rw [Draft.textsOf, List.map_map]
    rfl
  have hdraft := Draft.foldl_write options (Bucket.all.map (f.bucketRoots options.rowThreshold)) []
  rw [List.nil_append, htexts] at hdraft
  have hgenerate : f.generate options
      = let draft := Draft.ofTexts ((f.groups options.rowThreshold).map
          (Source.linesText options.indentWidth))
        if draft.text.isEmpty then options.placeholder else draft.text := by
    rw [← hdraft]
    rfl
  rw [hgenerate]
  cases hgroups : f.groups options.rowThreshold with
  | nil => rfl
  | cons es groups =>
      have hes : es ≠ [] := by
        have hmem : es ∈ f.groups options.rowThreshold := hgroups ▸ List.mem_cons_self
        simpa using (List.mem_filter.mp hmem).2
      -- The first group already has a text, so the draft is not empty.
      have hdraftNe : (Draft.ofTexts ((es :: groups).map (Source.linesText options.indentWidth))).text ≠ "" :=
        Draft.text_ofTexts_ne_empty (Source.linesText_ne_empty _ hes) _
      exact if_neg (by simpa using hdraftNe)

theorem generate_of_roots_eq_nil (hf : f.Valid) (h : f.roots = []) (options : Options) :
    f.generate options = options.placeholder := by
  rw [generate_eq_groups, (groups_eq_nil_iff hf options.rowThreshold).mpr h]

/-- The source of a forest with blocks: its groups, with a line feed between two of them. -/
theorem generate_of_roots_ne_nil (hf : f.Valid) (h : f.roots ≠ []) (options : Options) :
    f.generate options = "\n".intercalate
      ((Bucket.all.filter fun k => f.rootsIn k ≠ []).map (f.bucketText options)) := by
  rw [← map_linesText_groups hf options, generate_eq_groups]
  cases hgroups : f.groups options.rowThreshold with
  | nil => exact absurd ((groups_eq_nil_iff hf _).mp hgroups) h
  | cons es groups => rfl

variable {g : Forest} {options : Options}

theorem map_shown_groups (threshold : Binary64) (f : Forest) :
    (f.groups threshold).map (List.map Source.shown)
      = (Bucket.all.map fun k => (f.bucketEmitted threshold k).map Source.shown).filter (!·.isEmpty) := by
  rw [groups, List.filter_map, List.filter_map, List.map_map]
  simp only [Function.comp_def, List.isEmpty_map]

theorem generate_eq_shown (options : Options) (f : Forest) :
    f.generate options = if (f.groups options.rowThreshold).map (List.map Source.shown) = []
      then options.placeholder
      else "\n".intercalate (((f.groups options.rowThreshold).map (List.map Source.shown)).map
        (Source.shownText options.indentWidth)) := by
  have htexts : ((f.groups options.rowThreshold).map (List.map Source.shown)).map
        (Source.shownText options.indentWidth)
      = (f.groups options.rowThreshold).map (Source.linesText options.indentWidth) := by
    rw [List.map_map]
    exact List.map_congr_left fun es _ => (Source.linesText_eq_shownText _ es).symm
  rw [htexts, generate_eq_groups]
  cases f.groups options.rowThreshold with
  | nil => rfl
  | cons es groups => rfl

/-- **The source of a forest depends on what is seen of the blocks of each group.** -/
theorem generate_congr
    (h : ∀ k, (f.bucketEmitted options.rowThreshold k).map Source.shown
      = (g.bucketEmitted options.rowThreshold k).map Source.shown) :
    f.generate options = g.generate options := by
  have hgroups : (f.groups options.rowThreshold).map (List.map Source.shown)
      = (g.groups options.rowThreshold).map (List.map Source.shown) := by
    rw [map_shown_groups, map_shown_groups, List.map_congr_left fun k _ => h k]
  rw [generate_eq_shown, generate_eq_shown, hgroups]

/-- What is written for a group belongs to the trees of its roots. -/
theorem exists_mem_preorder_of_mem_bucketEmitted (hf : f.Valid) {threshold : Binary64} {k : Bucket}
    {e : Nat × Block} (he : e ∈ f.bucketEmitted threshold k) :
    ∃ t ∈ f.rootsIn k, e ∈ t.preorder 0 := by
  rw [bucketEmitted_eq hf, List.mem_flatMap] at he
  obtain ⟨t, ht, he⟩ := he
  refine ⟨t, (Tree.inOrder_perm _ _).mem_iff.mp ht, ?_⟩
  have hsingle : e ∈ [t].flatMap (·.emit threshold 0) := by rwa [List.flatMap_singleton]
  rw [← Tree.preorderAll_singleton]
  exact Tree.mem_preorderAll_of_mem_emit hsingle

theorem count_emitted (hf : f.Valid) (threshold : Binary64) {e : Nat × Block} (he : e ∈ f.walk) :
    (Bucket.all.flatMap (f.bucketEmitted threshold)).count e = if f.Hidden e.2 then 0 else 1 := by
  rw [(emitted_perm hf threshold).count_eq]
  by_cases hhidden : f.Hidden e.2
  · rw [if_pos hhidden, List.count_eq_zero]
    intro hmem
    exact absurd hhidden (by simpa using (List.mem_filter.mp hmem).2)
  · have hwalk : f.walk.Nodup := by
      have hids : (f.walk.map (·.2.id)).Nodup := f.map_id_walk ▸ (valid_iff_sound.mp hf).distinct
      exact hids.of_map
    rw [if_neg hhidden, List.count_filter (by simpa using hhidden)]
    exact List.count_eq_one_of_mem hwalk he

/-- **The source shows every block that is not folded away, once, and nothing else.** The placeholder
    stands for a forest without blocks and for no other. Any other source is the groups that have
    roots, in order, with one more line feed between two of them; a group is its own roots, laid out
    in canvas order; and its lines belong to blocks below its roots, one line for each block of the
    forest that is not hidden and none for the others. -/
theorem generate_shows_visible (hf : f.Valid) (options : Options) :
    ((∀ placeholder, f.generate { options with placeholder } = placeholder) ↔ f.roots = []) ∧
    (f.roots ≠ [] →
      f.generate options = "\n".intercalate
        ((Bucket.all.filter fun k => f.rootsIn k ≠ []).map (f.bucketText options))) ∧
    (∀ k, f.bucketText options k
      = Source.linesText options.indentWidth (f.bucketEmitted options.rowThreshold k)) ∧
    (∀ k, ∀ e ∈ f.bucketEmitted options.rowThreshold k, ∃ t ∈ f.rootsIn k, e ∈ t.preorder 0) ∧
    (∀ e ∈ f.walk, (Bucket.all.flatMap (f.bucketEmitted options.rowThreshold)).count e
      = if f.Hidden e.2 then 0 else 1) := by
  refine ⟨⟨?_, ?_⟩, ?_, ?_, ?_, ?_⟩
  · intro hplaceholder
    refine Classical.byContradiction fun hroots => ?_
    -- With roots the source is the same whatever the placeholder is, but two placeholders differ.
    have hempty := hplaceholder ""
    have hmark := hplaceholder "#"
    rw [generate_of_roots_ne_nil hf hroots] at hempty hmark
    exact absurd (hempty.symm.trans hmark) (by decide)
  · intro hroots placeholder
    exact generate_of_roots_eq_nil hf hroots _
  · exact fun hroots => generate_of_roots_ne_nil hf hroots options
  · exact fun k => (linesText_bucketEmitted hf options k).symm
  · exact fun k e he => exists_mem_preorder_of_mem_bucketEmitted hf he
  · exact fun e he => count_emitted hf _ he

/-- A loop that holds a folded loop with a statement in it, and an import put down after them. -/
def foldedLoop : Forest :=
  (Workspace.empty.applyAll
    [.insert "for" .origin, .insert "while" .origin, .insert "print" .origin,
      .insert "import" .origin, .group "while-2" "print-3", .group "for-1" "while-2",
      .update "while-2" ⟨.empty, none, some true⟩]).1.forest

/-- Two of the four groups are written there, the import first, and the statement is not. -/
theorem generate_shows_visible_foldedLoop :
    foldedLoop.Valid ∧
    foldedLoop.generate {} = "\n".intercalate
      ((Bucket.all.filter fun k => foldedLoop.rootsIn k ≠ []).map (foldedLoop.bucketText {})) ∧
    foldedLoop.generate {} = "import math\n\nfor i in range(5):\n    while True:\n" ∧
    (foldedLoop.walk.map fun e => (e.2.id, decide (foldedLoop.Hidden e.2)))
      = [("for-1", false), ("while-2", false), ("print-3", true), ("import-4", false)] ∧
    (∀ e ∈ foldedLoop.walk, (Bucket.all.flatMap (foldedLoop.bucketEmitted 50)).count e
      = if foldedLoop.Hidden e.2 then 0 else 1) := by
  have hvalid : foldedLoop.Valid := by rfl
  have hroots : foldedLoop.roots ≠ [] := by decide
  obtain ⟨-, hgroups, -, -, hcount⟩ := generate_shows_visible hvalid {}
  refine ⟨hvalid, hgroups hroots, by decide +kernel, ?_, hcount⟩
  rw [walk_eq_preorder]
  decide

end Forest

end Blockwork
