import Blockwork.Proofs.Number.Exact
import Blockwork.Proofs.Source.Conversion
import Blockwork.Proofs.Source.ReadBack
import Mathlib.Data.List.Flatten

/-!
# `Blockwork.Proofs.Source.Layout`: converted source is written in its own order

Conversion puts each line one step below the line before it, and that step is more than what counts
as one row when source is written. So the heights alone decide, and they agree with the order of the
lines, at every level of every tree. As far as rows have exact heights, writing a converted source
therefore moves nothing but whole top-level trees, and those only from group to group.

## Contents
- `Source.compareWith_position`: two lines compare as their rows.
- `Tree.Ordered`, siblings in canvas order, with `Tree.ordered_of_preorderAll` and
  `Forest.bucketEmitted_of_ordered`: ordered forests are written as they stand.
- `Bucket.place`, and `Forest.flatMap_rootsIn_of_pairwise`: roots that are grouped already.
- `Conversion.WrittenInOrder`, and `Conversion.ofSource_writtenInOrder`.
-/

namespace Blockwork

/-! ## Heights of rows -/

namespace Source

/-- The height of a row, as long as it is exact. -/
theorem y_position {l : Line} (hl : l.row ≤ 2 ^ 40) :
    l.position.y = Binary64.ofNat (50 + (l.row - 1) * 80) := by
  have hstep : Binary64.ofNat (l.row - 1) * Binary64.ofNat 80
      = Binary64.ofNat ((l.row - 1) * 80) :=
    Binary64.mul_ofNat (by omega) (by omega) (by omega)
  show Binary64.ofNat 50 + Binary64.ofNat (l.row - 1) * Binary64.ofNat 80 = _
  rw [hstep, Binary64.add_ofNat (by omega)]

/-- **A line comes before the lines of later rows**, however they are indented. -/
theorem compareWith_position {l l' : Line} (hl : 1 ≤ l.row) (hlt : l.row < l'.row)
    (hl' : l'.row ≤ 2 ^ 40) : l.position.compareWith 50 l'.position = .lt := by
  have hrows : 50 + (l.row - 1) * 80 + 80 ≤ 50 + (l'.row - 1) * 80 := by omega
  have hbound : 50 + (l'.row - 1) * 80 < 1 <<< 53 := by omega
  rw [Position.compareWith, y_position (by omega), y_position hl']
  generalize 50 + (l.row - 1) * 80 = y at hrows ⊢
  generalize 50 + (l'.row - 1) * 80 = y' at hrows hbound ⊢
  -- A whole step lies between the rows, and that is not one row.
  have hfar : ((Binary64.ofNat y - Binary64.ofNat y').abs.lt 50) = false := by
    have hdistance : max y y' - min y y' < 1 <<< 53 := by omega
    rw [Binary64.abs_sub_ofNat (by omega) hbound]
    show (Binary64.ofNat (max y y' - min y y')).lt (Binary64.ofNat 50) = false
    rw [Binary64.lt_ofNat hdistance (by decide)]
    exact decide_eq_false (by omega)
  rw [if_neg (by rw [hfar]; exact Bool.false_ne_true), Binary64.totalOrder_ofNat (by omega) hbound]
  exact compare_lt_iff_lt.mpr (by omega)

end Source

/-! ## Trees in canvas order -/

namespace Tree

variable {threshold : Binary64} {ts : List Tree}

/-- Siblings that are in canvas order. -/
def Ordered (threshold : Binary64) (ts : List Tree) : Prop :=
  ts.Pairwise fun t u => t.block.position.compareWith threshold u.block.position ≠ .gt

theorem inOrder_of_ordered (h : Ordered threshold ts) : inOrder threshold ts = ts :=
  Source.sortByPosition_eq_self h

/-- Trees with siblings in canvas order at every level are arranged already. -/
theorem arrange_of_ordered (t : Tree) (h : ∀ u ∈ t.subtrees, Ordered threshold u.children) :
    t.arrange threshold = t := by
  induction t using childrenInduction with
  | node b ts ih =>
      rw [subtrees, List.forall_mem_cons] at h
      obtain ⟨hts, hbelow⟩ := h
      rw [subtreesAll_eq_flatMap] at hbelow
      have harranged : ts.map (arrange threshold) = ts := by
        rw [List.map_congr_left (g := fun u => u), List.map_id']
        intro u hu
        exact ih u hu fun v hv => hbelow v (List.mem_flatMap_of_mem hu hv)
      rw [children_node] at hts
      rw [arrange_node, inOrder_of_ordered hts, harranged]

/-! ## Order along the walk -/

theorem map_block_sublist_preorderAll (depth : Nat) (ts : List Tree) :
    (ts.map fun t => (depth, t.block)).Sublist (preorderAll depth ts) := by
  induction ts using siblingInduction with
  | nil => exact List.nil_sublist _
  | cons b us ts _ ihTs =>
      rw [List.map_cons, preorderAll_cons]
      exact (ihTs.trans (List.sublist_append_right _ _)).cons_cons (depth, b)

/-- What a subtree holds comes in the walk in the order in which it comes below the subtree. -/
theorem preorderAll_children_sublist {t : Tree} (ht : t ∈ subtreesAll ts) (depth : Nat) :
    ∃ below, (preorderAll below t.children).Sublist (preorderAll depth ts) := by
  induction ts using siblingInduction generalizing depth with
  | nil => exact absurd ht (by simp [subtreesAll])
  | cons b us ts ihUs ihTs =>
      rw [subtreesAll_cons, List.mem_cons, List.mem_append] at ht
      rw [preorderAll_cons]
      rcases ht with rfl | ht | ht
      · exact ⟨depth + 1, (List.sublist_append_left _ _).cons _⟩
      · obtain ⟨below, hbelow⟩ := ihUs ht (depth + 1)
        exact ⟨below, (hbelow.trans (List.sublist_append_left _ _)).cons _⟩
      · obtain ⟨below, hbelow⟩ := ihTs ht depth
        exact ⟨below, (hbelow.trans (List.sublist_append_right _ _)).cons _⟩

/-- If the blocks of one depth are in canvas order along the walk, siblings are in canvas order at every
    level. -/
theorem ordered_of_preorderAll {depth : Nat}
    (h : (preorderAll depth ts).Pairwise fun e e' =>
      e.1 = e'.1 → e.2.position.compareWith threshold e'.2.position ≠ .gt) :
    Ordered threshold ts ∧ ∀ t ∈ subtreesAll ts, Ordered threshold t.children := by
  have hsiblings : ∀ (below : Nat) (us : List Tree),
      (preorderAll below us).Sublist (preorderAll depth ts) → Ordered threshold us := by
    intro below us hus
    have hblocks := h.sublist ((map_block_sublist_preorderAll below us).trans hus)
    exact (List.pairwise_map.mp hblocks).imp fun hcompare => hcompare rfl
  refine ⟨hsiblings depth ts (List.Sublist.refl _), fun t ht => ?_⟩
  obtain ⟨below, hbelow⟩ := preorderAll_children_sublist ht depth
  exact hsiblings below t.children hbelow

/-- The same where all blocks are in canvas order. -/
theorem ordered_of_blocksAll
    (h : (blocksAll ts).Pairwise fun b c => b.position.compareWith threshold c.position ≠ .gt) :
    Ordered threshold ts ∧ ∀ t ∈ subtreesAll ts, Ordered threshold t.children := by
  rw [← map_snd_preorderAll 0, List.pairwise_map] at h
  refine ordered_of_preorderAll (h.imp ?_)
  intro e e' hcompare _
  exact hcompare

theorem preorderAll_sublist {us : List Tree} (h : us.Sublist ts) (depth : Nat) :
    (preorderAll depth us).Sublist (preorderAll depth ts) := by
  rw [preorderAll_eq_flatMap, preorderAll_eq_flatMap]
  exact h.flatMap _

end Tree

/-! ## Groups -/

/-- The place of a group among the groups. -/
def Bucket.place (k : Bucket) : Nat :=
  Bucket.all.idxOf k

namespace Forest

variable {f : Forest}

/-- Where no root comes before one of an earlier group, writing the groups one after another keeps
    the order of the roots. -/
theorem flatMap_filter_of_pairwise {ts : List Tree}
    (h : ts.Pairwise fun t u => t.block.kind.bucket.place ≤ u.block.kind.bucket.place) :
    (Bucket.all.flatMap fun k => ts.filter (·.block.kind.bucket == k)) = ts := by
  induction ts with
  | nil => rfl
  | cons t ts ih =>
      rw [List.pairwise_cons] at h
      have hrest := ih h.2
      -- No later root is in a group before the group of the first one.
      have hnone : ∀ k : Bucket, k.place < t.block.kind.bucket.place →
          ts.filter (·.block.kind.bucket == k) = [] := by
        intro k hk
        refine List.filter_eq_nil_iff.mpr fun u hu heq => ?_
        have hle := h.1 u hu
        rw [beq_iff_eq.mp heq] at hle
        omega
      simp only [Bucket.all, List.flatMap_cons, List.flatMap_nil, List.filter_cons,
        List.append_nil] at hrest ⊢
      cases hbucket : t.block.kind.bucket with
      | imports => simpa using hrest
      | classes =>
          have himports := hnone .imports (by rw [hbucket]; decide)
          rw [himports] at hrest ⊢
          simpa using hrest
      | functions =>
          have himports := hnone .imports (by rw [hbucket]; decide)
          have hclasses := hnone .classes (by rw [hbucket]; decide)
          rw [himports, hclasses] at hrest ⊢
          simpa using hrest
      | other =>
          have himports := hnone .imports (by rw [hbucket]; decide)
          have hclasses := hnone .classes (by rw [hbucket]; decide)
          have hfunctions := hnone .functions (by rw [hbucket]; decide)
          rw [himports, hclasses, hfunctions] at hrest ⊢
          simpa using hrest

/-- The blocks of the forest with their depths, the trees taken group by group and within a group in
    the order of the roots. -/
def grouped (f : Forest) : List (Nat × Block) :=
  Bucket.all.flatMap fun k => Tree.preorderAll 0 (f.rootsIn k)

theorem grouped_eq_preorderAll (f : Forest) :
    f.grouped = Tree.preorderAll 0 (Bucket.all.flatMap f.rootsIn) := by
  rw [Tree.preorderAll_eq_flatMap, List.flatMap_assoc, grouped]
  simp only [Tree.preorderAll_eq_flatMap]

theorem grouped_perm (f : Forest) : f.grouped.Perm f.walk := by
  rw [grouped_eq_preorderAll, walk_eq_preorder, preorder, Tree.preorderAll_eq_flatMap,
    Tree.preorderAll_eq_flatMap]
  exact f.flatMap_rootsIn_perm.flatMap_right _

theorem rootsIn_sublist (f : Forest) (k : Bucket) : (f.rootsIn k).Sublist f.roots :=
  List.filter_sublist

/-- **A forest in canvas order with nothing folded away is written tree by tree as it stands**, group
    after group. -/
theorem bucketEmitted_of_ordered {threshold : Binary64} (hf : f.Valid)
    (hroots : Tree.Ordered threshold f.roots)
    (hbelow : ∀ t ∈ f.subtrees, Tree.Ordered threshold t.children)
    (hopen : ∀ t ∈ f.subtrees, t.children ≠ [] → t.block.collapsed = false) (k : Bucket) :
    f.bucketEmitted threshold k = Tree.preorderAll 0 (f.rootsIn k) := by
  have hinOrder : Tree.inOrder threshold (f.rootsIn k) = f.rootsIn k :=
    Tree.inOrder_of_ordered (hroots.sublist (f.rootsIn_sublist k))
  have harranged : (f.rootsIn k).map (Tree.arrange threshold) = f.rootsIn k := by
    rw [List.map_congr_left (g := fun t => t), List.map_id']
    intro t ht
    refine Tree.arrange_of_ordered t fun u hu => hbelow u ?_
    rw [subtrees, Tree.subtreesAll_eq_flatMap]
    exact List.mem_flatMap_of_mem (List.mem_of_mem_filter ht) hu
  rw [bucketEmitted_of_open hf hopen, hinOrder, harranged]

theorem bucketText_of_ordered (hf : f.Valid) (options : Options)
    (hroots : Tree.Ordered options.rowThreshold f.roots)
    (hbelow : ∀ t ∈ f.subtrees, Tree.Ordered options.rowThreshold t.children)
    (hopen : ∀ t ∈ f.subtrees, t.children ≠ [] → t.block.collapsed = false) (k : Bucket) :
    f.bucketText options k
      = Source.linesText options.indentWidth (Tree.preorderAll 0 (f.rootsIn k)) := by
  rw [← linesText_bucketEmitted hf, bucketEmitted_of_ordered hf hroots hbelow hopen]

end Forest

/-! ## Converted source -/

namespace Source

theorem collapsed_block (parent : Option Block) (s : Statement) :
    (s.block parent).collapsed = false := rfl

theorem position_block (parent : Option Block) (s : Statement) :
    (s.block parent).position = s.line.position := rfl

/-- What holds between the items of one list carries over to what they are related to. -/
theorem pairwise_of_forall₂ {α β : Type} {R : α → β → Prop} {P : α → α → Prop} {Q : β → β → Prop}
    {xs : List α} {ys : List β} (h : List.Forall₂ R xs ys) (hxs : xs.Pairwise P)
    (hcarry : ∀ a a' b b', R a b → R a' b' → P a a' → Q b b') : ys.Pairwise Q := by
  induction h with
  | nil => exact List.Pairwise.nil
  | @cons a b xs ys hab hrest ih =>
      rw [List.pairwise_cons] at hxs
      refine List.Pairwise.cons (fun b' hb' => ?_) (ih hxs.2)
      obtain ⟨k, hk, rfl⟩ := List.getElem_of_mem hb'
      have hk' : k < xs.length := hrest.length_eq ▸ hk
      exact hcarry a xs[k] b ys[k] hab (hrest.get hk' hk) (hxs.1 _ (List.getElem_mem hk'))

/-- Along the walk of a source the blocks are in canvas order. -/
theorem pairwise_blocks {statements : List Statement} {blocks : List Block}
    (h : List.Forall₂ (fun s b => ∃ parent, b = Statement.block parent s) statements blocks)
    (hrows : (statements.map (·.line.row)).Pairwise (· < ·))
    (hrange : ∀ s ∈ statements, 1 ≤ s.line.row ∧ s.line.row ≤ 2 ^ 40) :
    blocks.Pairwise fun b c => b.position.compareWith 50 c.position ≠ .gt := by
  rw [List.pairwise_map] at hrows
  have hlines := List.Pairwise.and_mem.mp hrows
  refine pairwise_of_forall₂ h hlines ?_
  rintro s s' _ _ ⟨parent, rfl⟩ ⟨parent', rfl⟩ ⟨hs, hs', hlt⟩
  rw [position_block, position_block, compareWith_position (hrange s hs).1 hlt (hrange s' hs').2]
  decide

theorem pairwise_blocks_ofSource {source : String} (h : (nonBlankLines source).length < 2 ^ 40) :
    (Conversion.ofSource source).forest.blocks.Pairwise fun b c =>
      b.position.compareWith 50 c.position ≠ .gt := by
  have hrows := map_row_statementsOf source
  rw [blocks_ofSource]
  refine pairwise_blocks (forall₂_blocksAll_treesOf _) ?_ fun s hs => ?_
  · rw [hrows]
    exact List.pairwise_lt_range'
  · have hmem : s.line.row ∈ List.range' 1 (nonBlankLines source).length := by
      rw [← hrows]
      exact List.mem_map_of_mem hs
    rw [List.mem_range'_1] at hmem
    omega

theorem collapsed_of_mem_ofSource {source : String} {b : Block}
    (hb : b ∈ (Conversion.ofSource source).forest.blocks) : b.collapsed = false := by
  rw [blocks_ofSource] at hb
  obtain ⟨s, -, parent, rfl⟩ := exists_statement_of_mem hb
  exact collapsed_block parent s

end Source

namespace Conversion

theorem roots_ne_nil {source : String} (hlines : Source.nonBlankLines source ≠ []) :
    (ofSource source).forest.roots ≠ [] := by
  intro hnone
  have hcount := length_walk_ofSource source
  rw [Forest.walk_eq_preorder, Forest.preorder, hnone] at hcount
  exact hlines (List.length_eq_zero_iff.mp hcount.symm)

/-- Nothing is folded away in a forest that was made from source. -/
theorem unfolded_ofSource (source : String) : ∀ t ∈ (ofSource source).forest.subtrees,
    t.children ≠ [] → t.block.collapsed = false :=
  fun _ ht _ => Source.collapsed_of_mem_ofSource (List.mem_map_of_mem ht)

/-- The source of a forest that was made from source. It consists of the groups that have trees, in
    their order, and a group of the lines of its trees, with four spaces for each level. Each line of
    the source has a block that says what it says, at its place in the walk; that block is written
    once, and no others are. Within a group the order is that of the walk, and so is the order of the
    whole if no tree stands before one of an earlier group. -/
structure WrittenInOrder (source : String) (f : Forest) : Prop where
  text : f.generate {} = "\n".intercalate ((Bucket.all.filter fun k => f.rootsIn k ≠ []).map
    fun k => Source.linesText 4 (Tree.preorderAll 0 (f.rootsIn k)))
  once : ∀ (k number : Nat) (line : List Char), (Source.nonBlankLines source)[k]? = some (number, line) →
    ∃ e : Nat × Block, f.walk[k]? = some e ∧ e.2.Records line ∧ f.grouped.count e = 1
  nothingElse : f.grouped.length = (Source.nonBlankLines source).length
  withinGroups : ∀ k, (Tree.preorderAll 0 (f.rootsIn k)).Sublist f.walk
  asItStands : f.roots.Pairwise
    (fun t u => t.block.kind.bucket.place ≤ u.block.kind.bucket.place) → f.grouped = f.walk

/-- **Conversion followed by generation keeps the order of the lines**, for every source with few
    enough lines for exact heights. -/
theorem ofSource_writtenInOrder {source : String} (hlines : Source.nonBlankLines source ≠ [])
    (hfew : (Source.nonBlankLines source).length < 2 ^ 40) :
    WrittenInOrder source (ofSource source).forest := by
  have hcomplete := ofSource_complete source
  have hvalid : (ofSource source).forest.Valid := hcomplete.valid
  obtain ⟨hroots, hbelow⟩ := Tree.ordered_of_blocksAll (Source.pairwise_blocks_ofSource hfew)
  constructor
  case text =>
    rw [Forest.generate_of_roots_ne_nil hvalid (roots_ne_nil hlines)]
    have hgroup : ∀ k, (ofSource source).forest.bucketText {} k
        = Source.linesText 4 (Tree.preorderAll 0 ((ofSource source).forest.rootsIn k)) :=
      fun k => Forest.bucketText_of_ordered hvalid {} hroots hbelow (unfolded_ofSource source) k
    rw [List.map_congr_left fun k _ => hgroup k]
  case once =>
    intro k number line hline
    obtain ⟨depth, b, hwalk, -, hrecords⟩ := hcomplete.blocks k number line hline
    refine ⟨(depth, b), hwalk, hrecords, ?_⟩
    have hdistinct : (ofSource source).forest.walk.Nodup := by
      have hids : ((ofSource source).forest.walk.map (·.2.id)).Nodup :=
        Forest.map_id_walk _ ▸ (Forest.valid_iff_sound.mp hvalid).distinct
      exact hids.of_map
    rw [(Forest.grouped_perm _).count_eq]
    exact List.count_eq_one_of_mem hdistinct (List.mem_of_getElem? hwalk)
  case nothingElse =>
    rw [(Forest.grouped_perm _).length_eq, hcomplete.count]
  case withinGroups =>
    intro k
    rw [Forest.walk_eq_preorder]
    exact Tree.preorderAll_sublist (Forest.rootsIn_sublist _ k) 0
  case asItStands =>
    intro hgrouped
    have hkeep : Bucket.all.flatMap (ofSource source).forest.rootsIn
        = (ofSource source).forest.roots := Forest.flatMap_filter_of_pairwise hgrouped
    rw [Forest.grouped_eq_preorderAll, hkeep, Forest.walk_eq_preorder]
    rfl

/-- A loop and an assignment before an import. -/
def importLast : String :=
  "while True:\n\n    x = 1\n    break\nimport os\ny = 2\n"

/-- The import is written first, and the rest in its order. -/
theorem ofSource_writtenInOrder_importLast :
    Source.nonBlankLines importLast ≠ [] ∧ (Source.nonBlankLines importLast).length < 2 ^ 40 ∧
    WrittenInOrder importLast (ofSource importLast).forest ∧
    (ofSource importLast).forest.generate {}
      = "import os\n\nwhile True:\n    x = 1\n    break\ny = 2\n" := by
  have hlines : Source.nonBlankLines importLast ≠ [] := by decide +kernel
  have hfew : (Source.nonBlankLines importLast).length < 2 ^ 40 := by decide +kernel
  refine ⟨hlines, hfew, ofSource_writtenInOrder hlines hfew, ?_⟩
  decide +kernel

end Conversion

end Blockwork
