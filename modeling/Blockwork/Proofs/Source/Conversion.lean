import Blockwork.Proofs.Edit.Numbering
import Blockwork.Proofs.Forest.Filled
import Blockwork.Proofs.Forest.Valid
import Blockwork.Proofs.Source.Assembly

/-!
# `Blockwork.Proofs.Source.Conversion`: every line of a source becomes a block

Conversion may nest the lines however it likes: what is said here of its result holds because the
blocks of the nested suites are, in the order of the walk, the blocks of the lines, each with some
parent. The ids are distinct since they end in the rows of the lines, and the forest is well formed
since only lines that open a suite are given content.

## Contents
- `Source.nonBlankLines`, the lines that count; `Source.linesFrom_eq` and `Source.map_linesFrom`.
- `Source.forall₂_blocksAll_toTrees`: the blocks of suites are the blocks of their statements.
- `Source.hangsAll_toTrees`, `Source.treesOf_filled`.
- `Block.Records`, what a block has to say about its line, and `Conversion.Complete`.
- `Conversion.ofSource_complete`, for every source.
-/

namespace Blockwork

namespace Source

/-! ## Lines -/

/-- The lines that are not blank, trimmed, each with its number counted from `number`. -/
def nonBlankFrom (number : Nat) (lines : List (List Char)) : List (Nat × List Char) :=
  ((lines.zipIdx number).map fun l => (l.2, Text.trimChars l.1)).filter fun l => l.2 ≠ []

/-- The lines of a source that are not blank, trimmed, with their numbers counted from one. -/
def nonBlankLines (source : String) : List (Nat × List Char) :=
  nonBlankFrom 1 (Text.splitLines source.toList)

/-- **The lines that count are the ones that are not blank, in order**: numbers count all lines, and
    rows those that are not blank. -/
theorem linesFrom_eq (number row : Nat) (lines : List (List Char)) :
    linesFrom number row lines
      = (((lines.zipIdx number).filter fun l => Text.trimChars l.1 ≠ []).zipIdx row).map
          fun l => ⟨l.1.2, l.2, indentWidth l.1.1, Text.trimChars l.1.1⟩ := by
  induction lines generalizing number row with
  | nil => rfl
  | cons line lines ih =>
      rw [linesFrom, List.zipIdx_cons]
      by_cases hblank : Text.trimChars line = []
      · rw [List.filter_cons_of_neg (by simpa using hblank), ← ih (number + 1) row]
        simp [hblank]
      · rw [List.filter_cons_of_pos (by simpa using hblank), List.zipIdx_cons, List.map_cons,
          ← ih (number + 1) (row + 1)]
        simp [hblank]

/-- What can be seen of the lines without their rows. -/
theorem map_linesFrom_of {α : Type} (seen : List Char × Nat → α) {see : Line → α}
    (h : ∀ l row, see ⟨l.2, row, indentWidth l.1, Text.trimChars l.1⟩ = seen l)
    (number row : Nat) (lines : List (List Char)) :
    (linesFrom number row lines).map see
      = ((lines.zipIdx number).filter fun l => Text.trimChars l.1 ≠ []).map seen := by
  conv_rhs => rw [← List.zipIdx_map_fst row (List.filter _ _), List.map_map]
  rw [linesFrom_eq, List.map_map]
  exact List.map_congr_left fun l _ => h l.1 l.2

theorem map_linesFrom (number row : Nat) (lines : List (List Char)) :
    (linesFrom number row lines).map (fun l => (l.number, l.text)) = nonBlankFrom number lines := by
  rw [nonBlankFrom, List.filter_map]
  exact map_linesFrom_of (fun l => (l.2, Text.trimChars l.1)) (fun _ _ => rfl) number row lines

/-- Rows count the lines that are not blank. -/
theorem map_row_linesFrom (number row : Nat) (lines : List (List Char)) :
    (linesFrom number row lines).map Line.row
      = List.range' row (nonBlankFrom number lines).length := by
  rw [linesFrom_eq, List.map_map, nonBlankFrom, List.filter_map, List.length_map]
  exact List.zipIdx_map_snd row _

/-! ## Blocks of statements -/

variable {parent : Option Block}

theorem id_block (s : Statement) :
    (s.block parent).id = (s.definition parent).val.id ++ "-" ++ toString s.line.row := rfl

theorem parent_block (s : Statement) : (s.block parent).parent = parent.map Block.id := rfl

theorem block_filled (s : Statement) : (s.block parent).Filled := by
  intro p hp
  show ((Block.fresh _ (s.definition parent) _).parameters.override _).contains p.name = true
  have hfresh := Block.fill_filled ⟨(s.block parent).id, s.definition parent, s.line.position,
    .empty, false, none⟩ p hp
  rw [Settings.contains_override, Bool.or_eq_true]
  exact Or.inl hfresh

/-! ## Blocks of suites -/

/-- **The blocks of suites, in the order of the walk, are the blocks of their statements**, each with
    some parent. -/
theorem forall₂_blocksAll_toTrees (parent : Option Block) (ss : List (Suite Statement)) :
    List.Forall₂ (fun s b => ∃ parent, b = Statement.block parent s) (Suite.preorderAll ss)
      (Tree.blocksAll (Suite.toTrees parent ss)) := by
  induction ss using Suite.siblingInduction generalizing parent with
  | nil => exact .nil
  | cons s body ss ihBody ihSs =>
      rw [Suite.preorderAll_cons, toTrees_cons, Tree.blocksAll_cons]
      exact .cons ⟨parent, rfl⟩ (List.rel_append (ihBody _) (ihSs parent))

theorem hangsAll_toTrees {ss : List (Suite Statement)} (h : Suite.Owned Statement.opensSuite ss)
    (parent : Option Block) :
    Tree.HangsAll (parent.map Block.id) (Suite.toTrees parent ss) := by
  induction h generalizing parent with
  | nil => trivial
  | @cons s body ss hs _ _ ihBody ihSs =>
      rw [toTrees_cons, Tree.hangsAll_cons]
      refine ⟨parent_block s, ?_, ihBody (some (s.block parent)), ihSs parent⟩
      intro hne
      rw [canOwnChildren_block]
      refine hs fun hbody => hne ?_
      rw [hbody, Suite.toTrees]

/-! ## The trees of a source -/

/-- What `ofSource` makes of the lines. -/
def statementsOf (source : String) : List Statement :=
  (Line.ofSource source).map Statement.ofLine

theorem forall₂_blocksAll_treesOf (statements : List Statement) :
    List.Forall₂ (fun s b => ∃ parent, b = Statement.block parent s) statements
      (Tree.blocksAll (treesOf statements)) := by
  have h := forall₂_blocksAll_toTrees none
    (nest (fun s : Statement => s.line.indent) Statement.opensSuite statements)
  rw [preorderAll_nest] at h
  exact h

theorem exists_statement_of_mem {statements : List Statement} {b : Block}
    (hb : b ∈ Tree.blocksAll (treesOf statements)) :
    ∃ s ∈ statements, ∃ parent, b = Statement.block parent s := by
  have h := forall₂_blocksAll_treesOf statements
  obtain ⟨k, hk, rfl⟩ := List.getElem_of_mem hb
  have hk' : k < statements.length := h.length_eq ▸ hk
  exact ⟨statements[k], List.getElem_mem hk', h.get hk' hk⟩

/-- All values are there already, so loading leaves the trees of a source as they are. -/
theorem roots_ofTrees_treesOf (statements : List Statement) :
    (Forest.ofTrees (treesOf statements)).roots = treesOf statements := by
  refine Forest.roots_ofTrees fun b hb => ?_
  obtain ⟨s, -, parent, rfl⟩ := exists_statement_of_mem hb
  exact block_filled s

theorem forest_ofSource (source : String) :
    (Conversion.ofSource source).forest = Forest.ofTrees (treesOf (statementsOf source)) := by
  rw [← Assembly.roots_ofStatements]
  rfl

theorem roots_ofSource (source : String) :
    (Conversion.ofSource source).forest.roots = treesOf (statementsOf source) := by
  rw [forest_ofSource, roots_ofTrees_treesOf]

/-- Blocks of lines with different rows have different ids. -/
theorem nodup_map_id {statements : List Statement} {blocks : List Block}
    (h : List.Forall₂ (fun s b => ∃ parent, b = Statement.block parent s) statements blocks)
    (hrows : (statements.map (·.line.row)).Nodup) : (blocks.map Block.id).Nodup := by
  induction h with
  | nil => exact List.nodup_nil
  | @cons s b statements blocks hb hrest ih =>
      rw [List.map_cons, List.nodup_cons] at hrows
      rw [List.map_cons, List.nodup_cons]
      refine ⟨?_, ih hrows.2⟩
      intro hmem
      obtain ⟨b', hb', hid⟩ := List.mem_map.mp hmem
      obtain ⟨k, hk, rfl⟩ := List.getElem_of_mem hb'
      have hk' : k < statements.length := hrest.length_eq ▸ hk
      obtain ⟨parent, rfl⟩ := hb
      obtain ⟨parent', hblock⟩ := hrest.get hk' hk
      rw [List.get_eq_getElem, List.get_eq_getElem] at hblock
      rw [hblock, id_block, id_block] at hid
      -- The rows are what stands after the last dash, whatever the types of the blocks are.
      have hrow : statements[k].line.row = s.line.row := Serial.eq_of_append_toString_eq hid
      exact hrows.1 (hrow ▸ List.mem_map_of_mem (List.getElem_mem hk'))

theorem map_row_statementsOf (source : String) :
    (statementsOf source).map (·.line.row) = List.range' 1 (nonBlankLines source).length := by
  rw [statementsOf, List.map_map]
  exact map_row_linesFrom 1 1 (Text.splitLines source.toList)

theorem length_statementsOf (source : String) :
    (statementsOf source).length = (nonBlankLines source).length := by
  have h := congrArg List.length (map_row_statementsOf source)
  rwa [List.length_map, List.length_range'] at h

/-- The trees of a source are sound: every block hangs where it says, and ids are distinct. -/
theorem sound_ofSource (source : String) : (Conversion.ofSource source).forest.Sound where
  hangs := by
    rw [roots_ofSource]
    exact hangsAll_toTrees (nest_owned _) none
  distinct := by
    rw [Forest.ids, roots_ofSource, ← Tree.map_id_blocksAll]
    refine nodup_map_id (forall₂_blocksAll_treesOf _) ?_
    rw [map_row_statementsOf]
    exact List.nodup_range'

theorem blocks_ofSource (source : String) :
    (Conversion.ofSource source).forest.blocks
      = Tree.blocksAll (treesOf (statementsOf source)) := by
  rw [Forest.blocks, roots_ofSource]

/-! ## The block of a line -/

/-- What a line that is not blank is, and the block that stands for it. -/
theorem exists_block_of_getElem? {source : String} {k number : Nat} {text : List Char}
    (h : (nonBlankLines source)[k]? = some (number, text)) :
    ∃ l parent, l.number = number ∧ l.row = k + 1 ∧ l.text = text ∧
      (Conversion.ofSource source).forest.blocks[k]?
        = some ((Statement.ofLine l).block parent) := by
  have hk : k < (nonBlankLines source).length := (List.getElem?_eq_some_iff.mp h).1
  rw [nonBlankLines, ← map_linesFrom 1 1, List.getElem?_map] at h
  obtain ⟨l, hl, hpair⟩ := Option.map_eq_some_iff.mp h
  rw [Prod.mk.injEq] at hpair
  have hstatement : (statementsOf source)[k]? = some (Statement.ofLine l) := by
    rw [statementsOf, List.getElem?_map]
    exact congrArg (Option.map Statement.ofLine) hl
  have hrow : l.row = k + 1 := by
    have hrows := congrArg (·[k]?) (map_row_statementsOf source)
    simp only [List.getElem?_map, hstatement, List.getElem?_range' hk] at hrows
    have := Option.some.inj hrows
    simp only [Statement.ofLine] at this
    omega
  have hblocks := forall₂_blocksAll_treesOf (statementsOf source)
  obtain ⟨hk₁, hs⟩ := List.getElem?_eq_some_iff.mp hstatement
  have hk₂ : k < (Tree.blocksAll (treesOf (statementsOf source))).length := hblocks.length_eq ▸ hk₁
  obtain ⟨parent, hb⟩ := hblocks.get hk₁ hk₂
  rw [List.get_eq_getElem, List.get_eq_getElem, hs] at hb
  refine ⟨l, parent, hpair.1, hrow, hpair.2, ?_⟩
  rw [blocks_ofSource, ← hb]
  exact List.getElem?_eq_getElem hk₂

end Source

/-- What a block says about its line. A line that is recognised gives its type, except that a function
    may be a method, and sets the parameters that it names; a line that is not is the text of a
    comment. -/
def Block.Records (b : Block) (line : List Char) : Prop :=
  match Source.recognise? line with
  | some r =>
    (b.definition = r.block ∨
        r.block.val.kind = .function ∧ b.definition.val.id = "method") ∧
      b.parameters = (Block.fresh b.id b.definition b.position).parameters.override
        (r.values.map fun v => (v.1, .text (String.ofList v.2)))
  | none =>
    b.definition = Catalog.comment ∧
      b.parameters.get? "text" = some (.text ("Unparsed: " ++ String.ofList line))

theorem Source.records_block (l : Line) (parent : Option Block) :
    ((Statement.ofLine l).block parent).Records l.text := by
  unfold Block.Records
  cases hreading : recognise? l.text with
  | some r =>
      have hcontent : (Statement.ofLine l).content = r := by
        rw [Statement.content, Statement.ofLine, hreading]
        rfl
      refine ⟨?_, ?_⟩
      · rw [definition_block, ← hcontent]
        refine (definition_cases parent _).imp_right fun h => ⟨h.1, ?_⟩
        rw [h.2, Catalog.id_entry]
      · rw [← hcontent]
        rfl
  | none =>
      have hcontent : (Statement.ofLine l).content
          = ⟨Catalog.comment, [("text", unparsedMark.toList ++ l.text)]⟩ := by
        rw [Statement.content, Statement.ofLine, hreading]
        rfl
      have hdefinition : (Statement.ofLine l).definition parent = Catalog.comment := by
        rcases definition_cases parent (Statement.ofLine l) with h | ⟨hkind, -⟩
        · rw [h, hcontent]
        · have hcomment : Catalog.comment.val.kind ≠ .function := by decide
          rw [hcontent] at hkind
          exact absurd hkind hcomment
      refine ⟨hdefinition, ?_⟩
      show ((Block.fresh _ _ _).parameters.override
        ((Statement.ofLine l).content.values.map _)).get? "text" = _
      rw [hcontent]
      show ((Block.fresh _ _ _).parameters.insert "text" _).get? "text" = _
      rw [Settings.get?_insert, if_pos rfl]
      show some (Value.text (String.ofList (unparsedMark.toList ++ l.text))) = _
      rw [String.ofList_append, String.ofList_toList]
      rfl

/-! ## Conversion -/

namespace Conversion

/-- The ids of a source end in the rows of its lines, and there is one for each row. -/
theorem mem_ids_ofSource {source : String} {id : BlockId}
    (h : id ∈ (ofSource source).forest.ids) :
    ∃ name row, id = name ++ "-" ++ toString row ∧ 1 ≤ row ∧
      row ≤ (Source.nonBlankLines source).length := by
  rw [← Forest.map_id_blocks, Source.blocks_ofSource] at h
  obtain ⟨b, hb, rfl⟩ := List.mem_map.mp h
  obtain ⟨s, hs, parent, rfl⟩ := Source.exists_statement_of_mem hb
  have hrow : s.line.row ∈ List.range' 1 (Source.nonBlankLines source).length := by
    rw [← Source.map_row_statementsOf]
    exact List.mem_map_of_mem hs
  rw [List.mem_range'_1] at hrow
  exact ⟨_, s.line.row, Source.id_block s, hrow.1, by omega⟩

theorem exists_mem_ids_ofSource (source : String) {k : Nat}
    (hk : k < (Source.nonBlankLines source).length) :
    ∃ name, name ++ "-" ++ toString (k + 1) ∈ (ofSource source).forest.ids := by
  obtain ⟨l, parent, -, hrow, -, hblock⟩ :=
    Source.exists_block_of_getElem? (List.getElem?_eq_getElem hk)
  rw [← Forest.map_id_blocks, ← hrow]
  exact ⟨_, List.mem_map_of_mem (List.mem_of_getElem? hblock)⟩

/-- The largest serial is the number of lines, as far as that is a serial. -/
theorem topSerial_ofSource (source : String) :
    (ofSource source).forest.topSerial
      = min (Source.nonBlankLines source).length (2 ^ 64 - 1) := by
  apply Nat.le_antisymm
  · refine Forest.topSerial_le fun id hid serial hparse => ?_
    obtain ⟨name, row, rfl, -, hrow⟩ := mem_ids_ofSource hid
    rw [Serial.serial?_append_toString] at hparse
    by_cases hfits : row < UInt64.size
    · rw [if_pos hfits, Option.some.injEq] at hparse
      have hlt := serial.toNat_lt
      rw [← hparse, UInt64.toNat_ofNat_of_lt' hfits] at hlt ⊢
      omega
    · rw [if_neg hfits] at hparse
      exact absurd hparse (by simp)
  · cases hn : min (Source.nonBlankLines source).length (2 ^ 64 - 1) with
    | zero => exact Nat.zero_le _
    | succ k =>
        obtain ⟨name, hmem⟩ := exists_mem_ids_ofSource source (by omega : k < _)
        exact (Serial.within_append_toString (by omega)).mp (Forest.within_topSerial hmem)

/-- **Every line of a source that is not blank becomes a block, and nothing else does.** The forest is
    well formed; its walk has one block for each such line, in order; the block of the k-th line ends
    its id with k, counted from one, and says what the line says. The counter stands after the last
    line, or at the largest serial if that is smaller. The lines that were not recognised are reported
    in order, with their numbers among all lines. -/
structure Complete (source : String) (c : Conversion) : Prop where
  valid : c.forest.validate = .ok ()
  count : c.forest.walk.length = (Source.nonBlankLines source).length
  blocks : ∀ k number line, (Source.nonBlankLines source)[k]? = some (number, line) →
    ∃ depth b, c.forest.walk[k]? = some (depth, b) ∧
      b.id = b.definition.val.id ++ "-" ++ toString (k + 1) ∧ b.Records line
  counter : c.forest.nextSerial.toNat
    = min ((Source.nonBlankLines source).length + 1) (2 ^ 64 - 1)
  issues : c.issues
    = ((Source.nonBlankLines source).filter fun l => (Source.recognise? l.2).isNone).map
        fun l => ⟨l.1, String.ofList l.2⟩

theorem length_walk_ofSource (source : String) :
    (ofSource source).forest.walk.length = (Source.nonBlankLines source).length := by
  rw [← List.length_map (f := Prod.snd), Forest.map_snd_walk, Source.blocks_ofSource,
    ← (Source.forall₂_blocksAll_treesOf _).length_eq, Source.length_statementsOf]

theorem issues_eq_filterMap (source : String) :
    (ofSource source).issues = (Source.statementsOf source).filterMap Source.Statement.issue? :=
  Source.Assembly.issues_ofStatements _

theorem issues_ofSource (source : String) :
    (ofSource source).issues
      = ((Source.nonBlankLines source).filter fun l => (Source.recognise? l.2).isNone).map
          fun l => ⟨l.1, String.ofList l.2⟩ := by
  rw [issues_eq_filterMap, Source.nonBlankLines, ← Source.map_linesFrom 1 1, Source.statementsOf, List.filterMap_map,
    List.filter_map, List.map_map, ← List.filterMap_eq_map, List.filterMap_filter]
  refine List.filterMap_congr fun l _ => ?_
  show (Source.Statement.ofLine l).issue? = if (Source.recognise? l.text).isNone then _ else none
  unfold Source.Statement.issue? Source.Statement.ofLine
  cases Source.recognise? l.text with
  | some r => rfl
  | none => rfl

theorem ofSource_complete (source : String) : (ofSource source).Complete source where
  valid := Forest.valid_iff_sound.mpr (Source.sound_ofSource source)
  count := length_walk_ofSource source
  blocks := by
    intro k number line hline
    obtain ⟨l, parent, -, hrow, rfl, hblock⟩ := Source.exists_block_of_getElem? hline
    rw [← Forest.map_snd_walk, List.getElem?_map] at hblock
    obtain ⟨⟨depth, b⟩, hwalk, rfl⟩ := Option.map_eq_some_iff.mp hblock
    refine ⟨depth, _, hwalk, ?_, Source.records_block l parent⟩
    rw [← hrow]
    rfl
  counter := by
    show (Forest.ofTrees _).nextSerial.toNat = _
    rw [Forest.toNat_nextSerial_ofTrees]
    have htop := topSerial_ofSource source
    show min ((ofSource source).forest.topSerial + 1) _ = _
    omega
  issues := issues_ofSource source

end Conversion

end Blockwork
