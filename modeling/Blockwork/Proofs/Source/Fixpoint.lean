import Blockwork.Proofs.Number.Monotone
import Blockwork.Proofs.Source.Layout
import Blockwork.Proofs.Source.Stability

/-!
# `Blockwork.Proofs.Source.Fixpoint`: converting what was written changes nothing

Source that was made from source is converted and written once more. Two things have to be seen. The
lines are the same, because every clear line is written stably. And they come in the same order: the
lines already stand in canvas order, group by group, since siblings are indented equally and rows do not
rise on the canvas. That holds for every threshold and for sources of any length, for heights that are
rounded keep their order even where they coincide.

## Contents
- `Source.compareWith_position_of_indent_eq`: siblings of a source are in canvas order.
- `Source.Restates`, a statement that stands for a block, and `Conversion.forall₂_restates`.
- `Source.Clear`, the sources whose lines are written stably.
- `Source.shown_toTrees`: the trees of a copy look like what was copied.
- `Conversion.ordered_ofSource_generate`: what is read back is in order.
- `Conversion.ofSource_fixpoint`; `Conversion.not_fixpoint_blankCondition`, a header with a blank value.
-/

namespace Blockwork

namespace Source

/-! ## Siblings of a source -/

/-- Later rows stand no higher, however many rows there are. -/
theorem rank_y_position_mono {l l' : Line} (h : l.row ≤ l'.row) :
    l.position.y.rank ≤ l'.position.y.rank := by
  have hstep : Binary64.ofNat 80 = .finite false (Magnitude.whole 80 (by decide)) :=
    Binary64.ofNat_eq_whole (by decide)
  have hmargin : Binary64.ofNat 50 = .finite false (Magnitude.whole 50 (by decide)) :=
    Binary64.ofNat_eq_whole (by decide)
  have hrows : (Binary64.ofNat (l.row - 1)).rank ≤ (Binary64.ofNat (l'.row - 1)).rank :=
    Binary64.rank_ofNat_mono (Nat.sub_le_sub_right h 1)
  have hunsigned : ∀ n, Binary64.Unsigned (Binary64.ofNat n) := fun n => Binary64.unsigned_ofMagnitude _
  have hunits : (Magnitude.whole 80 (by decide)).units ≠ 0 ∧ (Magnitude.whole 50 (by decide)).units ≠ 0 :=
    ⟨Nat.mul_ne_zero (by decide) unitsPerOne_pos.ne', Nat.mul_ne_zero (by decide) unitsPerOne_pos.ne'⟩
  show (Binary64.ofNat 50 + Binary64.ofNat (l.row - 1) * Binary64.ofNat 80).rank
    ≤ (Binary64.ofNat 50 + Binary64.ofNat (l'.row - 1) * Binary64.ofNat 80).rank
  rw [hstep, hmargin]
  -- Products and sums of unsigned numbers keep their order, though they may be infinite.
  have hproduct : ∀ n, Binary64.Unsigned
      (Binary64.ofNat n * .finite false (Magnitude.whole 80 (by decide))) := by
    intro n
    obtain ⟨o, ho⟩ := Binary64.unsigned_mul (hunsigned n) hunits.1
    rw [ho]
    exact Binary64.unsigned_ofMagnitude o
  refine Binary64.rank_add_mono (hproduct _) (hproduct _) hunits.2 ?_
  exact Binary64.rank_mul_mono (hunsigned _) (hunsigned _) hunits.1 hrows

theorem totalOrder_ne_gt {a b : Binary64} (h : a.rank ≤ b.rank) : a.totalOrder b ≠ .gt :=
  Int.compare_ne_gt.mpr h

/-- **Lines that are indented equally stand in canvas order**, for every threshold. -/
theorem compareWith_position_of_indent_eq (threshold : Binary64) {l l' : Line}
    (hindent : l.indent = l'.indent) (hrow : l.row ≤ l'.row) :
    l.position.compareWith threshold l'.position ≠ .gt := by
  have hx : l.position.x = l'.position.x := by
    rw [Line.position, Line.position, hindent]
  rw [Position.compareWith]
  split
  · rw [hx]
    exact totalOrder_ne_gt le_rfl
  · exact totalOrder_ne_gt (rank_y_position_mono hrow)

/-- What is read for a walk, each item indented by its depth, is in canvas order at each depth. -/
theorem pairwise_of_indent (threshold : Binary64) {width : Nat} {statements : List Statement}
    {es : List (Nat × Block)}
    (h : List.Forall₂ (fun s e => s.line.indent = e.1 * width ∧ ∃ parent, e.2 = Statement.block parent s)
      statements es)
    (hrows : (statements.map (·.line.row)).Pairwise (· < ·)) :
    es.Pairwise fun e e' => e.1 = e'.1 → e.2.position.compareWith threshold e'.2.position ≠ .gt := by
  refine pairwise_of_forall₂ h (List.pairwise_map.mp hrows) ?_
  rintro s s' ⟨depth, _⟩ ⟨depth', _⟩ ⟨hindent, parent, rfl⟩ ⟨hindent', parent', rfl⟩ hlt hdepth
  rw [position_block, position_block]
  refine compareWith_position_of_indent_eq threshold ?_ hlt.le
  rw [hindent, hindent', hdepth]

/-! ## Statements that stand for blocks -/

/-- A statement that stands for a block of another forest: its own block has the same line, may hold
    what that block holds and, at the top level, belongs to the same group. -/
structure Restates (s : Statement) (b : Block) : Prop where
  line : ∀ parent, (s.block parent).line = b.line
  opens : b.canOwnChildren = true → s.opensSuite = true
  group : b.parent = none → (s.block none).kind.bucket = b.kind.bucket

theorem kind_block_none (s : Statement) : (s.block none).kind = s.content.block.val.kind := by
  rw [Block.kind, definition_block, definition_eq, if_neg]
  rintro ⟨-, hclass⟩
  cases hclass

/-- A statement that says what is kept of another one stands for the block of that one. -/
theorem restates_block {l l' : Line} (h : (Statement.ofLine l').content.Kept (Statement.ofLine l).content)
    (parent : Option Block) : Restates (Statement.ofLine l) ((Statement.ofLine l').block parent) where
  line := by
    intro inside
    rw [← String.toList_inj, line_block_ofLine, line_block_ofLine]
    exact h.written
  opens := by
    rw [canOwnChildren_block]
    exact h.opens
  group := by
    intro hroot
    rw [parent_block, Option.map_eq_none_iff] at hroot
    rw [hroot, kind_block_none, kind_block_none]
    exact h.group

/-! ## Clear sources -/

/-- A source in which every line that is recognised is clear. -/
def Clear (source : String) : Prop :=
  ∀ l ∈ nonBlankLines source, ∀ r ∈ recognise? l.2, r.Clear

instance (source : String) : Decidable (Clear source) :=
  inferInstanceAs (Decidable (∀ l ∈ nonBlankLines source, ∀ r ∈ recognise? l.2, r.Clear))

variable {source : String}

/-- What is written for the block of a clear line can be told apart, and reading it gives a statement
    that stands for the block. -/
theorem Clear.rewritten (hclear : Clear source) {b : Block}
    (hb : b ∈ (Conversion.ofSource source).forest.blocks) :
    b.Discernible ∧ ∀ l : Line, l.text = Text.trimChars b.line.toList → Restates (Statement.ofLine l) b := by
  rw [blocks_ofSource] at hb
  obtain ⟨s, hs, parent, rfl⟩ := exists_statement_of_mem hb
  have hinline := Statement.inline_content hs
  have hstable : s.content.Stable := by
    refine Statement.stable_content hs fun r hr => ?_
    obtain ⟨l, hl, rfl⟩ := exists_line_of_mem hs
    refine hclear (l.number, l.text) ?_ r hr
    rw [nonBlankLines, ← map_linesFrom 1 1]
    exact List.mem_map_of_mem (f := fun l : Line => (l.number, l.text)) hl
  obtain ⟨l', -, rfl⟩ := exists_line_of_mem hs
  obtain ⟨again, hagain, hkept⟩ := hstable.again
  refine ⟨⟨?_, ?_, Block.trimChars_line_ne_nil _⟩, fun l hl => ?_⟩
  · rw [line_block_ofLine]
    exact fun hmem => absurd (hinline _ hmem) (by decide)
  · rw [line_block_ofLine]
    exact hstable.flush
  · rw [line_block_ofLine] at hl
    have hcontent : (Statement.ofLine l).content = again := by
      rw [Statement.content, Statement.ofLine, hl, hagain]
      rfl
    exact restates_block (hcontent ▸ hkept) parent

/-! ## Copies look the same -/

/-- **The trees of a copy look like what was copied.** -/
theorem shown_toTrees {ss : List (Suite Statement)} {ts : List Tree} (h : Suite.Copies Restates ss ts)
    (parent : Option Block) (depth : Nat) :
    (Tree.preorderAll depth (Suite.toTrees parent ss)).map shown
      = (Tree.preorderAll depth ts).map shown := by
  induction h generalizing parent depth with
  | nil => rfl
  | @cons s b body ss us ts hs _ _ ihBody ihSs =>
      have hseen : shown (depth, s.block parent) = shown (depth, b) := by
        rw [shown, shown, hs.line]
      rw [toTrees_cons, Tree.preorderAll_cons, Tree.preorderAll_cons, List.map_cons, List.map_cons,
        List.map_append, List.map_append, ihBody, ihSs, hseen]

/-- At the top level the trees of a copy belong to the groups of what was copied. -/
theorem forall₂_toTrees {ss : List (Suite Statement)} {ts : List Tree} (h : Suite.Copies Restates ss ts)
    (hroots : ∀ t ∈ ts, t.block.parent = none) :
    List.Forall₂ (fun t u : Tree => t.block.kind.bucket = u.block.kind.bucket ∧
      (t.preorder 0).map shown = (u.preorder 0).map shown) (Suite.toTrees none ss) ts := by
  induction h with
  | nil => exact .nil
  | @cons s b body ss us ts hs hbody _ _ ihSs =>
      obtain ⟨hroot, hrest⟩ := List.forall_mem_cons.mp hroots
      rw [toTrees_cons]
      refine .cons ⟨hs.group hroot, ?_⟩ (ihSs hrest)
      rw [← Tree.preorderAll_singleton, ← Tree.preorderAll_singleton]
      have hsingle := shown_toTrees (Suite.Copies.cons hs hbody .nil) none 0
      rwa [toTrees_cons] at hsingle

end Source

/-! ## The arranged forest -/

namespace Forest

variable {f : Forest}

/-- A group of the arranged forest. -/
theorem filter_arranged (threshold : Binary64) (f : Forest) (k : Bucket) :
    (f.arranged threshold).filter (·.block.kind.bucket == k)
      = (Tree.inOrder threshold (f.rootsIn k)).map (Tree.arrange threshold) := by
  have hgroup : ∀ j, ∀ t ∈ (Tree.inOrder threshold (f.rootsIn j)).map (Tree.arrange threshold),
      t.block.kind.bucket = j := by
    intro j t ht
    obtain ⟨u, hu, rfl⟩ := List.mem_map.mp ht
    rw [(Tree.inOrder_perm _ _).mem_iff] at hu
    rw [Tree.block_arrange]
    exact beq_iff_eq.mp (List.mem_filter.mp hu).2
  -- Arranging the trees of one group leaves them in it, so the other groups are filtered out.
  have hfilter : ∀ j, ((Tree.inOrder threshold (f.rootsIn j)).map (Tree.arrange threshold)).filter
        (·.block.kind.bucket == k)
      = if j = k then (Tree.inOrder threshold (f.rootsIn k)).map (Tree.arrange threshold) else [] := by
    intro j
    by_cases hj : j = k
    · rw [if_pos hj, ← hj]
      exact List.filter_eq_self.mpr fun t ht => beq_iff_eq.mpr (hgroup j t ht)
    · rw [if_neg hj]
      exact List.filter_eq_nil_iff.mpr fun t ht hbucket =>
        hj ((hgroup j t ht).symm.trans (beq_iff_eq.mp hbucket))
  rw [arranged, List.filter_flatMap]
  simp only [hfilter, Bucket.all, List.flatMap_cons, List.flatMap_nil]
  cases k <;> simp

theorem parent_of_mem_arranged (hf : f.Valid) {threshold : Binary64} :
    ∀ t ∈ f.arranged threshold, t.block.parent = none := by
  intro t ht
  obtain ⟨u, hu, rfl⟩ := exists_of_mem_arranged ht
  rw [Tree.block_arrange]
  exact (Tree.hangsAll_iff.mp (valid_iff_sound.mp hf).hangs).1 u hu

end Forest

/-! ## Converting what was written -/

namespace Conversion

open Source

variable {source : String}

/-- What is read of written source stands, in the order of the walk, for what was written. -/
theorem forall₂_restates (hlines : nonBlankLines source ≠ []) (hclear : Clear source) (options : Options) :
    List.Forall₂ (fun s e => s.line.indent = e.1 * options.indentWidth ∧ Restates s e.2)
      (statementsOf ((ofSource source).forest.generate options))
      (Tree.preorderAll 0 ((ofSource source).forest.arranged options.rowThreshold)) := by
  have hblocks : ∀ t ∈ (ofSource source).forest.subtrees, t.block.Discernible ∧
      ∀ l : Line, l.text = Text.trimChars t.block.line.toList → Restates (Statement.ofLine l) t.block :=
    fun t ht => hclear.rewritten (List.mem_map_of_mem ht)
  have hseen := Forest.forall₂_lines_generate (ofSource_complete source).valid (roots_ne_nil hlines)
    (unfolded_ofSource source) (fun t ht => (hblocks t ht).1) options
  rw [statementsOf, List.forall₂_map_left_iff]
  rw [List.forall₂_iff_zip] at hseen ⊢
  refine ⟨hseen.1, fun {l e} hmem => ?_⟩
  obtain ⟨hindent, htext⟩ := hseen.2 hmem
  obtain ⟨t, ht, hblock⟩ := Forest.exists_of_mem_preorderAll_arranged (List.of_mem_zip hmem).2
  rw [hblock] at htext ⊢
  exact ⟨hindent, (hblocks t ht).2 l htext⟩

/-- The trees of what is read copy the trees that were written. -/
theorem exists_copies (hlines : nonBlankLines source ≠ []) (hclear : Clear source) (options : Options)
    (hwidth : 1 ≤ options.indentWidth) :
    ∃ ss, (ofSource ((ofSource source).forest.generate options)).forest.roots = Suite.toTrees none ss ∧
      Suite.Copies Restates ss ((ofSource source).forest.arranged options.rowThreshold) := by
  obtain ⟨ss, hss, hcopies, -⟩ := foldr_graft_preorderAll hwidth (fun _ _ hs => hs.opens)
    (Forest.canOwnChildren_of_mem_arranged (ofSource_complete source).valid)
    (forall₂_restates hlines hclear options) [] (by simp)
  refine ⟨ss, ?_, hcopies⟩
  rw [roots_ofSource, treesOf, nest, hss, List.append_nil]

/-- What is read of written source is in canvas order already. -/
theorem ordered_ofSource_generate (hlines : nonBlankLines source ≠ []) (hclear : Clear source)
    (options : Options) (hwidth : 1 ≤ options.indentWidth) (threshold : Binary64) :
    let again := (ofSource ((ofSource source).forest.generate options)).forest
    Tree.Ordered threshold again.roots ∧ ∀ t ∈ again.subtrees, Tree.Ordered threshold t.children := by
  intro again
  obtain ⟨ss, hroots, hcopies⟩ := exists_copies hlines hclear options hwidth
  have hstatements := forall₂_restates hlines hclear options
  -- The copy has the depths of what was written, and these are the indentation of the lines.
  have hdepths : (Tree.preorderAll 0 again.roots).map Prod.fst
      = (Tree.preorderAll 0 ((ofSource source).forest.arranged options.rowThreshold)).map Prod.fst := by
    have hshown := congrArg (List.map Prod.fst) (shown_toTrees hcopies none 0)
    rwa [← hroots, List.map_map, List.map_map] at hshown
  have hindents : List.Forall₂ (fun s d => s.line.indent = d * options.indentWidth)
      (statementsOf ((ofSource source).forest.generate options))
      ((Tree.preorderAll 0 again.roots).map Prod.fst) := by
    rw [hdepths, List.forall₂_map_right_iff]
    exact hstatements.imp fun _ _ h => h.1
  have hblocks : List.Forall₂ (fun s b => ∃ parent, b = Statement.block parent s)
      (statementsOf ((ofSource source).forest.generate options))
      ((Tree.preorderAll 0 again.roots).map Prod.snd) := by
    rw [Tree.map_snd_preorderAll]
    show List.Forall₂ _ _ again.blocks
    rw [blocks_ofSource]
    exact forall₂_blocksAll_treesOf _
  have hentries := List.Forall₂.mp (fun _ _ hindent hblock => And.intro hindent hblock)
    (List.forall₂_map_right_iff.mp hindents) (List.forall₂_map_right_iff.mp hblocks)
  refine Tree.ordered_of_preorderAll (pairwise_of_indent threshold hentries ?_)
  rw [map_row_statementsOf]
  exact List.pairwise_lt_range'

/-- **Converting what was written and writing it again gives the same source**, if every line that was
    recognised is clear. -/
theorem ofSource_fixpoint (hlines : nonBlankLines source ≠ []) (hclear : Clear source) (options : Options)
    (hwidth : 1 ≤ options.indentWidth) :
    (ofSource ((ofSource source).forest.generate options)).forest.generate options
      = (ofSource source).forest.generate options := by
  have hvalid : (ofSource source).forest.Valid := (ofSource_complete source).valid
  obtain ⟨ss, hroots, hcopies⟩ := exists_copies hlines hclear options hwidth
  obtain ⟨hordered, hbelow⟩ := ordered_ofSource_generate hlines hclear options hwidth options.rowThreshold
  have hvalid' := (ofSource_complete ((ofSource source).forest.generate options)).valid
  have hopen' := unfolded_ofSource ((ofSource source).forest.generate options)
  refine Forest.generate_congr fun k => ?_
  -- The roots of a group look like the arranged roots of that group.
  have hgroup := List.rel_filter (p := fun t : Tree => t.block.kind.bucket == k)
    (q := fun t : Tree => t.block.kind.bucket == k) (fun _ _ h => by simp only [h.1])
    (forall₂_toTrees hcopies (Forest.parent_of_mem_arranged hvalid))
  rw [Forest.filter_arranged, ← hroots] at hgroup
  have hshown := List.forall₂_map_left_iff.mpr (List.forall₂_map_right_iff.mpr (hgroup.imp fun _ _ h => h.2))
  rw [List.forall₂_eq_eq_eq] at hshown
  rw [Forest.bucketEmitted_of_ordered hvalid' hordered hbelow hopen',
    Forest.bucketEmitted_of_open hvalid (unfolded_ofSource source), Tree.preorderAll_eq_flatMap,
    Tree.preorderAll_eq_flatMap, List.map_flatMap, List.map_flatMap, List.flatMap_def, List.flatMap_def]
  exact congrArg List.flatten hshown

/-- A class with a method, a call below an unknown line, and an import below a call, all indented
    unevenly. -/
def unevenlyIndented : String :=
  "class A(B):\n  def f(self):\n     return\nwith open(p) as f:\n y=2\nprint(hi)\n\timport os\n"

/-- Statements do not hold what is indented under them, so the import is written first. -/
theorem ofSource_fixpoint_unevenlyIndented :
    nonBlankLines unevenlyIndented ≠ [] ∧ Clear unevenlyIndented ∧
    (ofSource unevenlyIndented).forest.generate {}
      = "import os\n\nclass A(B):\n    def f(self):\n        return None\n\n# Unparsed: with open(p) as f:\ny = 2\nprint(\"hi\")\n" ∧
    (ofSource ((ofSource unevenlyIndented).forest.generate {})).forest.generate {}
      = (ofSource unevenlyIndented).forest.generate {} := by
  have hlines : nonBlankLines unevenlyIndented ≠ [] := by decide +kernel
  have hclear : Clear unevenlyIndented := by decide +kernel
  exact ⟨hlines, hclear, by decide +kernel, ofSource_fixpoint hlines hclear {} (by decide)⟩

/-- A header with a blank value is written without a value, and that is not recognised: what is written
    for it does not come back. -/
theorem not_fixpoint_blankCondition :
    nonBlankLines "if   :\n" ≠ [] ∧ (ofSource "if   :\n").forest.generate {} = "if :\n" ∧
    (ofSource ((ofSource "if   :\n").forest.generate {})).forest.generate {} = "# Unparsed: if :\n" ∧
    (ofSource ((ofSource "if   :\n").forest.generate {})).forest.generate {}
      ≠ (ofSource "if   :\n").forest.generate {} := by
  have hwritten : (ofSource "if   :\n").forest.generate {} = "if :\n" := by decide +kernel
  have hagain : (ofSource "if :\n").forest.generate {} = "# Unparsed: if :\n" := by decide +kernel
  refine ⟨by decide +kernel, hwritten, ?_, ?_⟩
  · rw [hwritten, hagain]
  · rw [hwritten, hagain]
    decide

end Conversion

end Blockwork
