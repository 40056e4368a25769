import Blockwork.Proofs.Source.ReadBack
import Blockwork.Source.Stats

/-!
# `Blockwork.Proofs.Source.Counts`: the counts of a source are those of its lines

Counting goes over the statements of a text, its trimmed lines that are not blank. In a source that was
written these are the lines of the blocks that are not folded away: no block has a blank line, indentation
is trimmed, and the lines between groups are blank. What is counted does not depend on the order of the
statements, so the counts of the source are the sum of the counts of the lines, each taken for itself.

## Contents
- `CodeStats.ofStatements`, with `ofStatements_append` and `sum_ofStatements`.
- `statements_eq_outline`, and `statements_line`: a line is one statement.
- `Forest.statements_generate_perm`: the statements of a source.
- `Forest.codeStats_generate`.
-/

namespace Blockwork

namespace Source

/-! ## Counts add up -/

namespace CodeStats

/-- Counts are added one by one. -/
instance : Add CodeStats where
  add a b :=
    { totalLines := a.totalLines + b.totalLines
      functions := a.functions + b.functions
      classes := a.classes + b.classes
      loops := a.loops + b.loops
      conditionals := a.conditionals + b.conditionals
      imports := a.imports + b.imports }

instance : Zero CodeStats where
  zero := ⟨0, 0, 0, 0, 0, 0⟩

/-- The counts over some statements. -/
def ofStatements (all : List (List Char)) : CodeStats where
  totalLines := all.length
  functions := all.countP (opensWith ["def "])
  classes := all.countP (opensWith ["class "])
  loops := all.countP (opensWith ["for ", "while "])
  conditionals := all.countP (opensWith ["if ", "elif "])
  imports := all.countP (opensWith ["import ", "from "])

theorem ofStatements_append (ss ss' : List (List Char)) :
    ofStatements (ss ++ ss') = ofStatements ss + ofStatements ss' := by
  unfold ofStatements
  rw [List.length_append]
  simp only [List.countP_append]
  rfl

theorem ofStatements_perm {ss ss' : List (List Char)} (h : ss.Perm ss') :
    ofStatements ss = ofStatements ss' := by
  unfold ofStatements
  rw [h.length_eq]
  simp only [h.countP_eq]

/-- The counts are the sum over the statements. -/
theorem sum_ofStatements (ss : List (List Char)) :
    (ss.map fun s => ofStatements [s]).sum = ofStatements ss := by
  induction ss with
  | nil => rfl
  | cons s ss ih => rw [List.map_cons, List.sum_cons, ih, ← ofStatements_append, List.singleton_append]

end CodeStats

theorem codeStats_eq (code : String) : codeStats code = .ofStatements (statements code) := rfl

/-! ## Statements -/

/-- The statements of a text are its outline without the indentation. -/
theorem statements_eq_outline (code : String) :
    statements code = (outline code.toList).map Prod.snd := by
  rw [statements, outline, List.filter_map, List.filter_map, List.map_map]
  congr 1
  refine List.filter_congr fun line _ => ?_
  cases hline : Text.trimChars line <;> simp [hline]

/-- The line of a block is one statement. -/
theorem statements_line {b : Block} (h : '\n' ∉ b.line.toList) :
    statements b.line = [Text.trimChars b.line.toList] := by
  have hne : b.line.toList ≠ [] := fun hnil => b.trimChars_line_ne_nil (by rw [hnil]; rfl)
  have hlines : Text.splitLines b.line.toList = [b.line.toList] := by
    have hread := Text.splitLinesFrom_append h [] []
    rw [List.append_nil, List.append_nil, Text.splitLinesFrom,
      if_neg (by simpa using hne), List.reverse_reverse] at hread
    exact hread
  rw [statements, hlines, List.map_singleton, List.filter_cons_of_pos, List.filter_nil]
  simpa using b.trimChars_line_ne_nil

end Source

namespace Forest

open Source

variable {f : Forest}

/-! ## The counts of a source -/

/-- Where no block is collapsed, none is hidden. -/
theorem not_hidden_of_open (hopen : ∀ e ∈ f.walk, e.2.collapsed = false) (b : Block) : ¬f.Hidden b := by
  rintro ⟨t, ht, hcollapsed, -⟩
  have hmem : t.block ∈ f.walk.map Prod.snd := f.map_snd_walk ▸ List.mem_map_of_mem ht
  obtain ⟨e, he, hblock⟩ := List.mem_map.mp hmem
  rw [← hblock, hopen e he] at hcollapsed
  cases hcollapsed

/-- **The statements of a source are the lines of the blocks that are not hidden**, in some order. -/
theorem statements_generate_perm (hf : f.Valid) (hroots : f.roots ≠ [])
    (hlines : ∀ e ∈ f.walk, ¬f.Hidden e.2 → '\n' ∉ e.2.line.toList) (options : Options) :
    (statements (f.generate options)).Perm
      ((f.walk.filter fun e => ¬f.Hidden e.2).map fun e => Text.trimChars e.2.line.toList) := by
  have hperm := emitted_perm hf options.rowThreshold
  have hwritten : ∀ es ∈ f.groups options.rowThreshold, ∀ e ∈ es, '\n' ∉ e.2.line.toList := by
    intro es hes e he
    have hmem := List.mem_flatten_of_mem hes he
    rw [flatten_groups, hperm.mem_iff, List.mem_filter] at hmem
    exact hlines e hmem.1 (by simpa using hmem.2)
  have houtline := outline_intercalate options.indentWidth _ hwritten
  rw [map_linesText_groups hf, ← generate_of_roots_ne_nil hf hroots, flatten_groups] at houtline
  rw [statements_eq_outline, houtline, List.map_map]
  exact hperm.map _

/-- **The counts of a source are the sum over the blocks that are not folded away**, each of them counted by
    its own line, which is one line. Where nothing is folded, the number of lines is the number of blocks. -/
theorem codeStats_generate (hf : f.Valid) (hroots : f.roots ≠ [])
    (hlines : ∀ e ∈ f.walk, ¬f.Hidden e.2 → '\n' ∉ e.2.line.toList) (options : Options) :
    codeStats (f.generate options)
        = ((f.walk.filter fun e => ¬f.Hidden e.2).map fun e => codeStats e.2.line).sum ∧
      (∀ e ∈ f.walk, ¬f.Hidden e.2 → (codeStats e.2.line).totalLines = 1) ∧
      ((∀ e ∈ f.walk, e.2.collapsed = false) →
        (codeStats (f.generate options)).totalLines = f.stats.blocks ∧ f.stats.blocks = f.size) := by
  have hperm := statements_generate_perm hf hroots hlines options
  refine ⟨?_, fun e he hvisible => ?_, fun hopen => ⟨?_, f.length_walk⟩⟩
  · rw [codeStats_eq, CodeStats.ofStatements_perm hperm, ← CodeStats.sum_ofStatements, List.map_map]
    congr 1
    refine List.map_congr_left fun e he => ?_
    obtain ⟨hwalk, hvisible⟩ := List.mem_filter.mp he
    rw [codeStats_eq, statements_line (hlines e hwalk (by simpa using hvisible))]
    rfl
  · rw [codeStats_eq, statements_line (hlines e he hvisible)]
    rfl
  · have hlength : (statements (f.generate options)).length = f.walk.length := by
      rw [hperm.length_eq, List.length_map, List.filter_eq_self.mpr]
      exact fun e _ => by simpa using not_hidden_of_open hopen e.2
    exact hlength

/-- A function that holds a loop with a statement in it, and a condition after it. -/
def loopInFunction : Forest :=
  (Workspace.empty.applyAll
    [.insert "function" .origin, .insert "for" .origin, .insert "print" .origin, .insert "if" .origin,
      .insert "import" .origin, .group "for-2" "print-3", .group "function-1" "for-2",
      .group "function-1" "if-4"]).1.forest

/-- The same with the loop folded. -/
def foldedInFunction : Forest :=
  (loopInFunction.apply (.update "for-2" ⟨.empty, none, some true⟩)).forest

/-- The folded loop is counted and the statement in it is not; unfolded, all five blocks are counted. -/
theorem codeStats_generate_foldedInFunction :
    foldedInFunction.Valid ∧ foldedInFunction.roots ≠ [] ∧
    (∀ e ∈ foldedInFunction.walk, ¬foldedInFunction.Hidden e.2 → '\n' ∉ e.2.line.toList) ∧
    codeStats (foldedInFunction.generate {})
      = ((foldedInFunction.walk.filter fun e => ¬foldedInFunction.Hidden e.2).map
          fun e => codeStats e.2.line).sum ∧
    codeStats (foldedInFunction.generate {}) = ⟨4, 1, 0, 1, 1, 1⟩ ∧
    loopInFunction.Valid ∧ loopInFunction.roots ≠ [] ∧
    (∀ e ∈ loopInFunction.walk, ¬loopInFunction.Hidden e.2 → '\n' ∉ e.2.line.toList) ∧
    (∀ e ∈ loopInFunction.walk, e.2.collapsed = false) ∧
    (codeStats (loopInFunction.generate {})).totalLines = loopInFunction.stats.blocks ∧
    loopInFunction.size = 5 := by
  have hfolded : foldedInFunction.Valid := by rfl
  have hvalid : loopInFunction.Valid := by rfl
  have hlines : ∀ e ∈ foldedInFunction.walk, ¬foldedInFunction.Hidden e.2 → '\n' ∉ e.2.line.toList := by
    rw [walk_eq_preorder]
    decide +kernel
  have hlines' : ∀ e ∈ loopInFunction.walk, ¬loopInFunction.Hidden e.2 → '\n' ∉ e.2.line.toList := by
    rw [walk_eq_preorder]
    decide +kernel
  have hopen : ∀ e ∈ loopInFunction.walk, e.2.collapsed = false := by
    rw [walk_eq_preorder]
    decide
  obtain ⟨hsum, -, -⟩ := codeStats_generate hfolded (by decide) hlines {}
  obtain ⟨-, -, hcount⟩ := codeStats_generate hvalid (by decide) hlines' {}
  exact ⟨hfolded, by decide, hlines, hsum, by decide +kernel, hvalid, by decide, hlines', hopen,
    (hcount hopen).1, by decide⟩

end Forest

end Blockwork
