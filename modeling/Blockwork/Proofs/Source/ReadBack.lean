import Blockwork.Proofs.Source.Conversion
import Blockwork.Proofs.Source.Emission
import Blockwork.Proofs.Source.Tokens

/-!
# `Blockwork.Proofs.Source.ReadBack`: source that was written is read back

Writing a forest prints depths as indentation, and conversion makes depths of indentation again. What
lies between them is the outline of a text, the indentation and the trimmed text of each line. The
outline of written source is the walk of the forest with its siblings in canvas order, and nesting a
walk by its depths gives the trees that were walked.

## Contents
- `Source.outline` of a text; `Source.outline_linesText`, `Source.outline_intercalate`.
- `Block.Discernible`, the blocks whose line can be told apart; `Block.Legible`, those whose line says
  what they are.
- `Tree.arrange`, and `Tree.emit_eq_preorder`: what is written is a walk.
- `Suite.Copies`, and `Source.foldr_graft_preorderAll`: nesting a walk copies the trees.
- `Tree.shape`, and `Source.shapeAll_toTrees`: conversion of a copy has the shape.
- `Forest.forall₂_lines_generate`: the lines of written source.
- `Conversion.ofSource_generate`.
-/

namespace Blockwork

namespace Source

/-! ## What conversion sees of a text -/

/-- The indentation and the trimmed text of every line that is not blank. -/
def outline (cs : List Char) : List (Nat × List Char) :=
  ((Text.splitLines cs).map fun line => (indentWidth line, Text.trimChars line)).filter
    fun l => l.2 ≠ []

theorem map_outline_linesFrom (number row : Nat) (lines : List (List Char)) :
    (linesFrom number row lines).map (fun l => (l.indent, l.text))
      = (lines.map fun line => (indentWidth line, Text.trimChars line)).filter fun l => l.2 ≠ [] := by
  -- The outline does not see the numbers of the lines either.
  conv_rhs => rw [← List.zipIdx_map_fst number lines, List.map_map, List.filter_map]
  exact map_linesFrom_of (fun l => (indentWidth l.1, Text.trimChars l.1)) (fun _ _ => rfl) number row
    lines

theorem outline_newLine (cs : List Char) : outline ('\n' :: cs) = outline cs := by
  have hlines : Text.splitLines ([] ++ '\n' :: cs) = _ := Text.splitLines_append List.not_mem_nil cs
  rw [List.nil_append] at hlines
  rw [outline, hlines, List.map_cons, List.filter_cons_of_neg (by decide)]
  rfl

/-- A line that is not blank is seen, and its end is not. -/
theorem outline_line {line : List Char} (hnewLine : '\n' ∉ line) (hne : Text.trimChars line ≠ [])
    (rest : List Char) :
    outline (line ++ '\n' :: rest) = (indentWidth line, Text.trimChars line) :: outline rest := by
  have hsolid : ∃ c ∈ line, Text.isBlank c = false := by
    rw [ne_eq, Text.trimChars_eq_nil_iff] at hne
    simpa using hne
  obtain ⟨c, hmem, hc⟩ := hsolid
  rw [outline, Text.splitLines_append hnewLine, List.map_cons, indentWidth_closeLine hmem hc,
    Text.trimChars_closeLine, List.filter_cons_of_pos (by simpa using hne)]
  rfl

/-! ## Lines that say what they are -/

theorem isSome_lookup_function : (Catalog.lookup "function").isSome = true := by
  decide

/-- The type as which a line of source shows a block: a method looks like a function. -/
def asWritten (definition : Entry) : Entry :=
  if definition.val.kind = .method then Catalog.entry "function" isSome_lookup_function
  else definition

end Source

/-- A block whose line can be told apart in a source: it is one line, begins with no blank, and is not
    empty. -/
structure Block.Discernible (b : Block) : Prop where
  oneLine : '\n' ∉ b.line.toList
  flush : ∀ c ∈ b.line.toList.head?, Text.isBlank c = false
  notBlank : Text.trimChars b.line.toList ≠ []

/-- A block whose line can be told apart in a source and is recognised for what it is: it is one line,
    begins with no blank, and says the block's own type. -/
structure Block.Legible (b : Block) : Prop where
  oneLine : '\n' ∉ b.line.toList
  flush : ∀ c ∈ b.line.toList.head?, Text.isBlank c = false
  recognised : (Source.recognise? (Text.trimChars b.line.toList)).map (·.block)
    = some (Source.asWritten b.definition)

instance (b : Block) : Decidable b.Legible :=
  decidable_of_iff
    ('\n' ∉ b.line.toList ∧ b.line.toList.head?.any Text.isBlank = false ∧
      (Source.recognise? (Text.trimChars b.line.toList)).map (·.block)
        = some (Source.asWritten b.definition))
    (by
      rw [Option.any_eq_false]
      exact ⟨fun h => ⟨h.1, by simpa using h.2.1, h.2.2⟩,
        fun h => ⟨h.oneLine, by simpa using h.flush, h.recognised⟩⟩)

theorem Block.Legible.discernible {b : Block} (h : b.Legible) : b.Discernible where
  oneLine := h.oneLine
  flush := h.flush
  notBlank := b.trimChars_line_ne_nil

namespace Source

variable {es : List (Nat × Block)}

/-- What is seen of an emitted block: how far its line is indented, and the text of the line. The
    indentation is that of the depth and of the blanks that the line itself begins with. -/
def outlined (width : Nat) (e : Nat × Block) : Nat × List Char :=
  (indentWidth (List.replicate (e.1 * width) ' ' ++ e.2.line.toList), Text.trimChars e.2.line.toList)

theorem outlined_of_discernible (width : Nat) {e : Nat × Block} (h : e.2.Discernible) :
    outlined width e = (e.1 * width, Text.trimChars e.2.line.toList) := by
  cases hline : e.2.line.toList with
  | nil => exact absurd (by rw [hline]; rfl) h.notBlank
  | cons c cs =>
      have hc : Text.isBlank c = false := h.flush c (by rw [hline]; rfl)
      rw [outlined, hline, indentWidth_spaces_append _ hc]

theorem outline_lineText (width : Nat) {e : Nat × Block} (h : '\n' ∉ e.2.line.toList) (rest : List Char) :
    outline ((lineText width e).toList ++ rest) = outlined width e :: outline rest := by
  have htext := Text.trimChars_blanks_append (Text.isBlank_of_mem_spaces (n := e.1 * width)) e.2.line.toList
  have hnewLine : '\n' ∉ List.replicate (e.1 * width) ' ' ++ e.2.line.toList := by
    rw [List.mem_append, not_or]
    exact ⟨fun hmem => absurd (List.eq_of_mem_replicate hmem) (by decide), h⟩
  have hne : Text.trimChars (List.replicate (e.1 * width) ' ' ++ e.2.line.toList) ≠ [] :=
    htext ▸ e.2.trimChars_line_ne_nil
  rw [toList_lineText, List.append_assoc, List.singleton_append, outline_line hnewLine hne, htext, outlined]

/-- **Written lines are seen one by one.** -/
theorem outline_linesText (width : Nat) (hes : ∀ e ∈ es, '\n' ∉ e.2.line.toList) (rest : List Char) :
    outline ((linesText width es).toList ++ rest) = es.map (outlined width) ++ outline rest := by
  induction es with
  | nil => rfl
  | cons e es ih =>
      obtain ⟨he, hes⟩ := List.forall_mem_cons.mp hes
      rw [linesText_cons, String.toList_append, List.append_assoc, outline_lineText width he, ih hes,
        List.map_cons, List.cons_append]

/-- The line feeds between groups are not seen. -/
theorem outline_intercalate (width : Nat) (groups : List (List (Nat × Block)))
    (hgroups : ∀ es ∈ groups, ∀ e ∈ es, '\n' ∉ e.2.line.toList) :
    outline ("\n".intercalate (groups.map (linesText width))).toList
      = groups.flatten.map (outlined width) := by
  induction groups with
  | nil => rfl
  | cons es groups ih =>
      obtain ⟨hes, hgroups⟩ := List.forall_mem_cons.mp hgroups
      cases groups with
      | nil =>
          have h := outline_linesText width hes []
          rw [List.append_nil] at h
          rw [List.map_cons, List.map_nil, String.intercalate_singleton, h, List.flatten_cons,
            List.map_append]
          rfl
      | cons es' groups =>
          rw [List.map_cons, List.map_cons, String.intercalate_cons_cons, ← List.map_cons,
            String.toList_append, String.toList_append, List.append_assoc,
            outline_linesText width hes, List.flatten_cons, List.map_append, ← ih hgroups]
          exact congrArg _ (outline_newLine _)

end Source

/-! ## Written trees are walked in canvas order -/

namespace Tree

variable {threshold : Binary64} {t u : Tree} {ts : List Tree}

mutual

/-- A tree with siblings in canvas order at every level. -/
def arrange (threshold : Binary64) : Tree → Tree
  | node b ts => node b (inOrder threshold (arrangeAll threshold ts))

/-- Trees each with siblings in canvas order below it. -/
def arrangeAll (threshold : Binary64) : List Tree → List Tree
  | [] => []
  | t :: ts => arrange threshold t :: arrangeAll threshold ts

end

theorem arrangeAll_eq_map (ts : List Tree) : arrangeAll threshold ts = ts.map (arrange threshold) := by
  induction ts with
  | nil => rw [arrangeAll, List.map_nil]
  | cons t ts ih => rw [arrangeAll, ih, List.map_cons]

@[simp] theorem block_arrange (t : Tree) : (t.arrange threshold).block = t.block := by
  cases t
  rw [arrange]
  rfl

/-- Below a block stand the arranged trees of its content, in canvas order. -/
theorem arrange_node (b : Block) (ts : List Tree) :
    (node b ts).arrange threshold = node b ((inOrder threshold ts).map (arrange threshold)) := by
  rw [arrange, arrangeAll_eq_map, inOrder, Source.sortByPosition_map]
  simp only [block_arrange]
  rfl

/-- **Where no block with content is collapsed, what is written for a tree is the walk of the arranged
    tree.** -/
theorem emit_eq_preorder (depth : Nat) (t : Tree)
    (h : ∀ u ∈ t.subtrees, u.children ≠ [] → u.block.collapsed = false) :
    t.emit threshold depth = (t.arrange threshold).preorder depth := by
  induction t using childrenInduction generalizing depth with
  | node b ts ih =>
      rw [subtrees, List.forall_mem_cons] at h
      have hbelow : ∀ u ∈ inOrder threshold ts,
          u.emit threshold (depth + 1) = (u.arrange threshold).preorder (depth + 1) := by
        intro u hu
        have hmem : u ∈ ts := (inOrder_perm threshold ts).mem_iff.mp hu
        refine ih u hmem (depth + 1) fun v hv => h.2 v ?_
        rw [subtreesAll_eq_flatMap]
        exact List.mem_flatMap_of_mem hmem hv
      rw [emit_node, arrange_node, preorder, preorderAll_eq_flatMap, List.flatMap_map,
        ← List.flatMap_congr hbelow]
      -- A block without content may be collapsed: there is nothing that it could leave out.
      by_cases hts : ts = []
      · rw [hts]
        cases b.collapsed <;> rfl
      · have hopen : b.collapsed = false := h.1 hts
        rw [if_neg (by simp [hopen])]

/-- The trees inside an arranged tree are the arranged trees inside it. -/
theorem exists_of_mem_subtrees_arrange (t : Tree) (hu : u ∈ (t.arrange threshold).subtrees) :
    ∃ v ∈ t.subtrees, u = v.arrange threshold := by
  induction t using childrenInduction with
  | node b ts ih =>
      rw [arrange_node, subtrees, List.mem_cons, ← arrange_node, subtreesAll_eq_flatMap,
        List.mem_flatMap] at hu
      rw [subtrees, subtreesAll_eq_flatMap]
      rcases hu with rfl | ⟨t', ht', hu⟩
      · exact ⟨node b ts, List.mem_cons_self, rfl⟩
      · obtain ⟨t, ht, rfl⟩ := List.mem_map.mp ht'
        rw [(inOrder_perm threshold ts).mem_iff] at ht
        obtain ⟨v, hv, rfl⟩ := ih t ht hu
        exact ⟨v, List.mem_cons_of_mem _ (List.mem_flatMap_of_mem ht hv), rfl⟩

theorem mem_children_arrange {t : Tree} :
    u ∈ (t.arrange threshold).children ↔ ∃ v ∈ t.children, v.arrange threshold = u := by
  cases t with
  | node b ts =>
      rw [arrange_node, children_node, children_node, List.mem_map]
      simp only [(inOrder_perm threshold ts).mem_iff]

end Tree

/-! ## Nesting a walk -/

namespace Source

variable {α : Type} {indent : α → Nat} {opens : α → Bool} {R : α → Block → Prop}

/-- Suites and trees of the same shape, with related items and blocks. -/
inductive Suite.Copies (R : α → Block → Prop) : List (Suite α) → List Tree → Prop where
  | nil : Copies R [] []
  | cons {a : α} {b : Block} {body ss : List (Suite α)} {us ts : List Tree} (item : R a b)
      (inner : Copies R body us) (after : Copies R ss ts) :
      Copies R (.node a body :: ss) (.node b us :: ts)

theorem Suite.Copies.ne_nil {ss : List (Suite α)} {ts : List Tree} (h : Suite.Copies R ss ts)
    (hss : ss ≠ []) : ts ≠ [] := by
  cases h with
  | nil => exact absurd rfl hss
  | cons item inner after => exact List.cons_ne_nil _ _

/-- **Nesting the items of a walk copies the trees**, before suites that are indented no further than
    the walk begins. -/
theorem foldr_graft_preorderAll {width : Nat} (hwidth : 1 ≤ width)
    (hopens : ∀ a b, R a b → b.canOwnChildren = true → opens a = true) {ts : List Tree}
    (hown : ∀ t ∈ Tree.subtreesAll ts, t.children ≠ [] → t.block.canOwnChildren = true)
    {depth : Nat} {items : List α}
    (hitems : List.Forall₂ (fun a e => indent a = e.1 * width ∧ R a e.2) items
      (Tree.preorderAll depth ts))
    (following : List (Suite α)) (hfollowing : ∀ s ∈ following.head?, indent s.item ≤ depth * width) :
    ∃ ss, items.foldr (graft indent opens) following = ss ++ following ∧ Suite.Copies R ss ts ∧
      ∀ s ∈ ss, indent s.item = depth * width := by
  induction ts using Tree.siblingInduction generalizing depth items following with
  | nil =>
      cases hitems
      exact ⟨[], rfl, .nil, by simp⟩
  | cons b us ts ihUs ihTs =>
      rw [Tree.subtreesAll_cons, List.forall_mem_cons, List.forall_mem_append] at hown
      obtain ⟨hownB, hownUs, hownTs⟩ := hown
      rw [Tree.preorderAll_cons] at hitems
      cases hitems with
      | @cons a _ items _ ha hrest =>
          -- The items after the first one are those of the content and those of the siblings.
          have hinner := List.forall₂_take_append _ _ _ hrest
          have hafter := List.forall₂_drop_append _ _ _ hrest
          rw [← List.take_append_drop (Tree.preorderAll (depth + 1) us).length items]
          generalize items.take (Tree.preorderAll (depth + 1) us).length = inner at hinner ⊢
          generalize items.drop (Tree.preorderAll (depth + 1) us).length = after at hafter ⊢
          obtain ⟨ss, hss, hcopies, hindent⟩ := ihTs hownTs hafter following hfollowing
          -- What follows the content begins with a sibling, or with what follows all siblings.
          have hhead : ∀ s ∈ (ss ++ following).head?, indent s.item ≤ depth * width := by
            cases ss with
            | nil => exact hfollowing
            | cons s ss =>
                intro s' hs'
                cases hs'
                exact (hindent s List.mem_cons_self).le
          have hdeeper : depth * width < (depth + 1) * width := by
            rw [Nat.add_mul, Nat.one_mul]
            exact Nat.lt_add_of_pos_right hwidth
          obtain ⟨body, hbody, hcopiesBody, hindentBody⟩ := ihUs hownUs hinner (ss ++ following)
            (fun s hs => (hhead s hs).trans hdeeper.le)
          refine ⟨.node a body :: ss, ?_, .cons ha.2 hcopiesBody hcopies, ?_⟩
          · have hopensA : body ≠ [] → opens a = true := by
              intro hne
              exact hopens a b ha.2 (hownB (hcopiesBody.ne_nil hne))
            rw [List.foldr_cons, List.foldr_append, hss, hbody, List.cons_append]
            refine graft_append hopensA (fun s hs => ?_) fun s hs => ?_
            · rw [ha.1, hindentBody s hs]
              exact hdeeper
            · rw [ha.1]
              exact hhead s hs
          · exact List.forall_mem_cons.mpr ⟨ha.1, hindent⟩

end Source

/-! ## The types of the blocks of a tree -/

namespace Tree

mutual

/-- The types of the blocks of a tree, each with what the block holds. -/
def shape : Tree → Source.Suite Entry
  | node b ts => .node b.definition (shapeAll ts)

/-- The types of the blocks of some trees. -/
def shapeAll : List Tree → List (Source.Suite Entry)
  | [] => []
  | t :: ts => shape t :: shapeAll ts

end

theorem shapeAll_cons (b : Block) (us ts : List Tree) :
    shapeAll (node b us :: ts) = .node b.definition (shapeAll us) :: shapeAll ts := by
  rw [shapeAll, shape]

theorem shapeAll_eq_map (ts : List Tree) : shapeAll ts = ts.map shape := by
  induction ts with
  | nil => rw [shapeAll, List.map_nil]
  | cons t ts ih => rw [shapeAll, ih, List.map_cons]

end Tree

/-- A method stands right inside a class, and what stands right inside a class is no function. -/
def Block.FitsIn (container : Option Block) (b : Block) : Prop :=
  (b.kind = .method → container.map kind = some .class) ∧
    (container.map kind = some .class → b.kind ≠ .function)

instance (container : Option Block) (b : Block) : Decidable (b.FitsIn container) :=
  inferInstanceAs (Decidable (_ ∧ _))

namespace Source

/-- A method is the only type of its kind, and a function of its. -/
theorem eq_entry_of_kind (e : Entry) :
    (e.val.kind = .method → e = Catalog.entry "method") ∧
      (e.val.kind = .function → e = Catalog.entry "function") := by
  have hall : ∀ d ∈ Catalog.builtin, (d.kind = .method → d = (Catalog.entry "method").val) ∧
      (d.kind = .function → d = (Catalog.entry "function").val) := by decide
  obtain ⟨hmethod, hfunction⟩ := hall e.val e.property
  exact ⟨fun h => Subtype.ext (hmethod h), fun h => Subtype.ext (hfunction h)⟩

/-- What the statement says is the type of the block as a source shows it. -/
def Says (s : Statement) (b : Block) : Prop :=
  s.reading.map (·.block) = some (asWritten b.definition)

variable {s : Statement} {b : Block}

theorem Says.content_block (h : Says s b) : s.content.block = asWritten b.definition := by
  obtain ⟨r, hr, hblock⟩ := Option.map_eq_some_iff.mp h
  rw [Statement.content, hr]
  exact hblock

theorem Says.opensSuite (h : Says s b) (hb : b.canOwnChildren = true) : s.opensSuite = true := by
  rw [Statement.opensSuite, h.content_block, asWritten]
  by_cases hmethod : b.definition.val.kind = .method
  · rw [if_pos hmethod]
    decide
  · rw [if_neg hmethod]
    exact hb

/-- In a block of the same kind a statement gets the type of the block that it was written for. -/
theorem Says.definition {container parent : Option Block} (h : Says s b) (hb : b.FitsIn container)
    (hparent : parent.map Block.kind = container.map Block.kind) :
    s.definition parent = b.definition := by
  rw [definition_eq, h.content_block, hparent, asWritten]
  by_cases hmethod : b.definition.val.kind = .method
  · rw [if_pos hmethod, if_pos ⟨by decide, hb.1 hmethod⟩, (eq_entry_of_kind _).1 hmethod]
  · have hfunction : ¬(b.definition.val.kind = .function ∧ container.map Block.kind = some .class) :=
      fun h => hb.2 h.2 h.1
    rw [if_neg hmethod, if_neg hfunction]

/-- **The trees of a copy have the shape of what was copied.** -/
theorem shapeAll_toTrees {ss : List (Suite Statement)} {ts : List Tree} (h : Suite.Copies Says ss ts)
    {container parent : Option Block} (hparent : parent.map Block.kind = container.map Block.kind)
    (hroots : ∀ t ∈ ts, t.block.FitsIn container)
    (hbelow : ∀ t ∈ Tree.subtreesAll ts, ∀ u ∈ t.children, u.block.FitsIn (some t.block)) :
    Tree.shapeAll (Suite.toTrees parent ss) = Tree.shapeAll ts := by
  induction h generalizing container parent with
  | nil => rfl
  | @cons s b body ss us ts hsays _ _ ihBody ihSs =>
      rw [List.forall_mem_cons] at hroots
      rw [Tree.subtreesAll_cons, List.forall_mem_cons, List.forall_mem_append] at hbelow
      obtain ⟨hinB, hinUs, hinTs⟩ := hbelow
      have hdefinition : s.definition parent = b.definition :=
        Says.definition hsays hroots.1 hparent
      have hkind : (some (s.block parent)).map Block.kind = (some b).map Block.kind := by
        rw [Option.map_some, Option.map_some, Block.kind, Block.kind, definition_block, hdefinition]
      rw [toTrees_cons, Tree.shapeAll_cons, Tree.shapeAll_cons, definition_block, hdefinition,
        ihBody hkind hinB hinUs, ihSs hparent hroots.2 hinTs]

end Source

/-! ## Source that was written -/

namespace Forest

variable {f : Forest} {threshold : Binary64}

/-- The trees in the order in which they are written: group by group, and in canvas order within a
    group and below every block. -/
def arranged (threshold : Binary64) (f : Forest) : List Tree :=
  Bucket.all.flatMap fun k => (Tree.inOrder threshold (f.rootsIn k)).map (Tree.arrange threshold)

/-- A forest whose source says all about it: no content is folded away, every line says what its block
    is, and methods stand where they are told from functions. -/
structure Legible (f : Forest) : Prop where
  unfolded : ∀ t ∈ f.subtrees, t.children ≠ [] → t.block.collapsed = false
  lines : ∀ t ∈ f.subtrees, t.block.Legible
  roots : ∀ t ∈ f.roots, t.block.FitsIn none
  nested : ∀ t ∈ f.subtrees, ∀ u ∈ t.children, u.block.FitsIn (some t.block)

theorem exists_of_mem_arranged {t : Tree} (ht : t ∈ f.arranged threshold) :
    ∃ u ∈ f.roots, u.arrange threshold = t := by
  obtain ⟨k, -, ht⟩ := List.mem_flatMap.mp ht
  obtain ⟨u, hu, rfl⟩ := List.mem_map.mp ht
  rw [(Tree.inOrder_perm _ _).mem_iff] at hu
  exact ⟨u, List.mem_of_mem_filter hu, rfl⟩

/-- The trees inside the arranged forest are those of the forest, arranged. -/
theorem exists_of_mem_subtreesAll_arranged {t : Tree}
    (ht : t ∈ Tree.subtreesAll (f.arranged threshold)) : ∃ u ∈ f.subtrees, u.arrange threshold = t := by
  rw [Tree.subtreesAll_eq_flatMap, List.mem_flatMap] at ht
  obtain ⟨v, hv, ht⟩ := ht
  obtain ⟨r, hr, rfl⟩ := exists_of_mem_arranged hv
  obtain ⟨u, hu, rfl⟩ := Tree.exists_of_mem_subtrees_arrange r ht
  refine ⟨u, ?_, rfl⟩
  rw [subtrees, Tree.subtreesAll_eq_flatMap]
  exact List.mem_flatMap_of_mem hr hu

/-- Below a block of the arranged forest stands something only if the block may hold it. -/
theorem canOwnChildren_of_mem_arranged (hf : f.Valid) :
    ∀ t ∈ Tree.subtreesAll (f.arranged threshold), t.children ≠ [] → t.block.canOwnChildren = true := by
  intro t ht hne
  obtain ⟨u, hu, rfl⟩ := exists_of_mem_subtreesAll_arranged ht
  obtain ⟨c, hc⟩ := List.exists_mem_of_ne_nil _ hne
  obtain ⟨d, hd, -⟩ := Tree.mem_children_arrange.mp hc
  rw [Tree.block_arrange]
  exact (Tree.hangsAll_iff.mp (valid_iff_sound.mp hf).hangs).2.2 u hu (List.ne_nil_of_mem hd)

/-- **Where no block with content is collapsed, what is written for a group is a walk** of its arranged
    roots. -/
theorem bucketEmitted_of_open (hf : f.Valid)
    (hopen : ∀ t ∈ f.subtrees, t.children ≠ [] → t.block.collapsed = false) (k : Bucket) :
    f.bucketEmitted threshold k
      = Tree.preorderAll 0 ((Tree.inOrder threshold (f.rootsIn k)).map (Tree.arrange threshold)) := by
  rw [bucketEmitted_eq hf, Tree.preorderAll_eq_flatMap, List.flatMap_map]
  refine List.flatMap_congr fun t ht => Tree.emit_eq_preorder 0 t fun u hu => ?_
  rw [(Tree.inOrder_perm _ _).mem_iff] at ht
  refine hopen u ?_
  rw [subtrees, Tree.subtreesAll_eq_flatMap]
  exact List.mem_flatMap_of_mem (List.mem_of_mem_filter ht) hu

/-- The arranged forest is walked in the order in which the blocks are written. -/
theorem flatten_groups_of_open (hf : f.Valid)
    (hopen : ∀ t ∈ f.subtrees, t.children ≠ [] → t.block.collapsed = false) :
    (f.groups threshold).flatten = Tree.preorderAll 0 (f.arranged threshold) := by
  rw [flatten_groups, arranged, Tree.preorderAll_eq_flatMap, List.flatMap_assoc]
  refine List.flatMap_congr fun k _ => ?_
  rw [bucketEmitted_of_open hf hopen, Tree.preorderAll_eq_flatMap]

/-- The blocks of the arranged forest are those of the forest. -/
theorem exists_of_mem_preorderAll_arranged {e : Nat × Block}
    (he : e ∈ Tree.preorderAll 0 (f.arranged threshold)) : ∃ t ∈ f.subtrees, e.2 = t.block := by
  obtain ⟨t, ht, hblock⟩ := List.mem_map.mp (Tree.snd_mem_blocksAll he)
  obtain ⟨u, hu, rfl⟩ := exists_of_mem_subtreesAll_arranged ht
  exact ⟨u, hu, by rw [← hblock, Tree.block_arrange]⟩

/-- **The lines of written source are, in the order of the walk, the lines of the blocks**, each
    indented by its depth. -/
theorem forall₂_lines_generate (hf : f.Valid) (hroots : f.roots ≠ [])
    (hopen : ∀ t ∈ f.subtrees, t.children ≠ [] → t.block.collapsed = false)
    (hlines : ∀ t ∈ f.subtrees, t.block.Discernible) (options : Options) :
    List.Forall₂
      (fun (l : Source.Line) (e : Nat × Block) =>
        l.indent = e.1 * options.indentWidth ∧ l.text = Text.trimChars e.2.line.toList)
      (Source.Line.ofSource (f.generate options))
      (Tree.preorderAll 0 (f.arranged options.rowThreshold)) := by
  have hwritten : ∀ e ∈ (f.groups options.rowThreshold).flatten, e.2.Discernible := by
    rw [flatten_groups_of_open hf hopen]
    intro e he
    obtain ⟨t, ht, hblock⟩ := exists_of_mem_preorderAll_arranged he
    exact hblock ▸ hlines t ht
  have houtline := Source.outline_intercalate options.indentWidth (f.groups options.rowThreshold)
    fun es hes e he => (hwritten e (List.mem_flatten_of_mem hes he)).oneLine
  rw [List.map_congr_left fun e he => Source.outlined_of_discernible _ (hwritten e he),
    map_linesText_groups hf, ← generate_of_roots_ne_nil hf hroots, Source.outline,
    ← Source.map_outline_linesFrom 1 1, flatten_groups_of_open hf hopen] at houtline
  have hsame := List.forall₂_eq_eq_eq ▸ houtline
  have hseen := List.forall₂_map_left_iff.mp (List.forall₂_map_right_iff.mp hsame)
  exact hseen.imp fun _ _ h => Prod.mk.inj h

/-- **The statements of written source are, in the order of the walk, what the blocks say**, each
    indented by its depth. -/
theorem forall₂_statementsOf_generate (hf : f.Valid) (hroots : f.roots ≠ []) (hlegible : f.Legible)
    (options : Options) :
    List.Forall₂
      (fun (s : Source.Statement) (e : Nat × Block) =>
        s.line.indent = e.1 * options.indentWidth ∧ Source.Says s e.2)
      (Source.statementsOf (f.generate options))
      (Tree.preorderAll 0 (f.arranged options.rowThreshold)) := by
  have hseen := forall₂_lines_generate hf hroots hlegible.unfolded
    (fun t ht => (hlegible.lines t ht).discernible) options
  rw [Source.statementsOf, List.forall₂_map_left_iff]
  rw [List.forall₂_iff_zip] at hseen ⊢
  refine ⟨hseen.1, fun {l e} hmem => ?_⟩
  obtain ⟨hindent, htext⟩ := hseen.2 hmem
  obtain ⟨t, ht, hblock⟩ := exists_of_mem_preorderAll_arranged (List.of_mem_zip hmem).2
  have hrecognised := (hlegible.lines t ht).recognised
  rw [← hblock, ← htext] at hrecognised
  exact ⟨hindent, hrecognised⟩

end Forest

namespace Conversion

theorem issues_eq_nil {statements : List Source.Statement} {es : List (Nat × Block)}
    (h : List.Forall₂ (fun s e => Source.Says s e.2) statements es) :
    statements.filterMap Source.Statement.issue? = [] := by
  induction h with
  | nil => rfl
  | cons hsays _ ih =>
      obtain ⟨r, hr, -⟩ := Option.map_eq_some_iff.mp hsays
      rw [List.filterMap_cons_none, ih]
      rw [Source.Statement.issue?, hr]

/-- **Conversion of written source gives back the forest that was written**: nothing is reported, and
    the trees have the types of the arranged forest, each block with what it held. -/
theorem ofSource_generate {f : Forest} (hf : f.Valid) (hroots : f.roots ≠ []) (hlegible : f.Legible)
    (options : Options) (hwidth : 1 ≤ options.indentWidth) :
    (ofSource (f.generate options)).issues = [] ∧
    (ofSource (f.generate options)).forest.roots.map Tree.shape
      = (f.arranged options.rowThreshold).map Tree.shape := by
  have hstatements := Forest.forall₂_statementsOf_generate hf hroots hlegible options
  constructor
  · rw [issues_eq_filterMap]
    exact issues_eq_nil (hstatements.imp fun _ _ h => h.2)
  · obtain ⟨ss, hss, hcopies, -⟩ := Source.foldr_graft_preorderAll hwidth
      (fun s b hsays hb => hsays.opensSuite hb) (Forest.canOwnChildren_of_mem_arranged hf) hstatements []
      (by simp)
    rw [Source.roots_ofSource, Source.treesOf, Source.nest, hss, List.append_nil,
      ← Tree.shapeAll_eq_map, ← Tree.shapeAll_eq_map]
    refine Source.shapeAll_toTrees hcopies rfl ?_ ?_
    · intro t ht
      obtain ⟨u, hu, rfl⟩ := Forest.exists_of_mem_arranged ht
      rw [Tree.block_arrange]
      exact hlegible.roots u hu
    · intro t ht c hc
      obtain ⟨u, hu, rfl⟩ := Forest.exists_of_mem_subtreesAll_arranged ht
      obtain ⟨d, hd, rfl⟩ := Tree.mem_children_arrange.mp hc
      rw [Tree.block_arrange, Tree.block_arrange]
      exact hlegible.nested u hu d hd

/-- A class with a method, and a loop and a statement that were put down out of order. -/
def scattered : Forest :=
  (Workspace.empty.applyAll
    [.insert "print" ⟨0, 400⟩, .insert "for" ⟨0, 200⟩, .insert "break" ⟨40, 100⟩,
      .insert "print" ⟨40, 300⟩, .insert "class" .origin, .insert "method" .origin,
      .group "for-2" "print-4", .group "for-2" "break-3", .group "class-5" "method-6"]).1.forest

/-- It is written with two spaces a level, and read back. -/
theorem ofSource_generate_scattered :
    scattered.Valid ∧ scattered.roots ≠ [] ∧ scattered.Legible ∧
    (Tree.preorderAll 0 (scattered.arranged 50)).map (fun e => (e.1, e.2.definition.val.id))
      = [(0, "class"), (1, "method"), (0, "for"), (1, "break"), (1, "print"), (0, "print")] ∧
    (ofSource (scattered.generate { indentWidth := 2 })).issues = [] ∧
    (ofSource (scattered.generate { indentWidth := 2 })).forest.roots.map Tree.shape
      = (scattered.arranged 50).map Tree.shape := by
  have hvalid : scattered.Valid := by rfl
  have hroots : scattered.roots ≠ [] := by decide
  have hlegible : scattered.Legible :=
    { unfolded := by decide
      lines := by decide +kernel
      roots := by decide
      nested := by decide }
  have hread := ofSource_generate hvalid hroots hlegible { indentWidth := 2 } (by decide)
  exact ⟨hvalid, hroots, hlegible, by decide +kernel, hread⟩

end Conversion

end Blockwork
