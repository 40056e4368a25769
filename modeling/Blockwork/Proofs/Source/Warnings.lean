import Blockwork.Proofs.Source.Emission
import Blockwork.Proofs.Text.Trim
import Blockwork.Source.Stats
import Mathlib.Data.List.Infix

/-!
# `Blockwork.Proofs.Source.Warnings`: counts and warnings do not see the layout

Warnings are found on lines as they stand: a loop is looked at trimmed, but the lines after it, where its
`break` may be, are not, and the lines after it are counted in the same list that gives the numbers. What
is looked for holds no blank, so it stands in a line exactly if it stands in the trimmed line; and blank
lines are gone before anything is numbered. So counts and warnings depend on the statements of a source
alone. The statements of a written source are those of the lines of its blocks, one block after the other,
also where a line holds line feeds and only its first part is indented.

## Contents
- `Text.contains_trimChars`: a word without blanks stands in a line exactly if it does so trimmed.
- `issuesOf_map_trimChars`, and `potentialIssues_eq`: warnings are found on statements.
- `statementsFrom`, the statements of a text whose first line is begun already, with
  `statementsFrom_append` and `statementsFrom_spaces`.
- `Forest.statements_generate`: the statements of a written source.
- `Forest.layout_unseen`.
-/

namespace Blockwork

namespace Text

/-! ## Words in a line -/

theorem contains_iff {part cs : List Char} : contains part cs = true ↔ part <:+: cs := by
  induction cs with
  | nil => simp [contains]
  | cons c cs ih =>
      rw [contains, Bool.or_eq_true, ih, startsWith, List.isPrefixOf_iff_prefix, List.infix_cons_iff]

variable {part blanks cs : List Char}

/-- Blanks before a text hold no part of a word. -/
theorem infix_blanks_append_iff (hne : part ≠ []) (hpart : ∀ c ∈ part, isBlank c = false)
    (hblanks : ∀ c ∈ blanks, isBlank c = true) : part <:+: blanks ++ cs ↔ part <:+: cs := by
  induction blanks with
  | nil => rfl
  | cons b blanks ih =>
      obtain ⟨hb, hblanks⟩ := List.forall_mem_cons.mp hblanks
      rw [List.cons_append, List.infix_cons_iff, ih hblanks, or_iff_right]
      -- A word that began here would begin with the blank.
      intro hprefix
      obtain ⟨p, part, rfl⟩ := List.exists_cons_of_ne_nil hne
      obtain rfl : p = b := (List.cons_prefix_cons.mp hprefix).1
      exact absurd hb (by simp [hpart p List.mem_cons_self])

theorem infix_append_blanks_iff (hne : part ≠ []) (hpart : ∀ c ∈ part, isBlank c = false)
    (hblanks : ∀ c ∈ blanks, isBlank c = true) : part <:+: cs ++ blanks ↔ part <:+: cs := by
  rw [← List.reverse_infix, List.reverse_append, infix_blanks_append_iff, List.reverse_infix]
  · simpa using hne
  · exact fun c hc => hpart c (List.mem_reverse.mp hc)
  · exact fun c hc => hblanks c (List.mem_reverse.mp hc)

/-- **A word without blanks stands in a line exactly if it stands in the trimmed line.** -/
theorem contains_trimChars (hne : part ≠ []) (hpart : ∀ c ∈ part, isBlank c = false) (cs : List Char) :
    contains part (trimChars cs) = contains part cs := by
  obtain ⟨before, after, hbefore, hafter, hcs⟩ := exists_blanks_trimChars cs
  have hiff : part <:+: trimChars cs ↔ part <:+: cs := by
    conv_rhs => rw [hcs]
    rw [infix_blanks_append_iff hne hpart hbefore, infix_append_blanks_iff hne hpart hafter]
  rw [Bool.eq_iff_iff, contains_iff, contains_iff, hiff]

end Text

namespace Source

/-! ## Warnings -/

/-- A warning about a line does not depend on the blanks around it and around the lines after it. -/
theorem issuesAt_map_trimChars (lines : List (List Char)) (index : Nat) (line : List Char) :
    issuesAt (lines.map Text.trimChars) index (Text.trimChars line) = issuesAt lines index line := by
  have hbreak : ∀ cs, Text.contains "break".toList (Text.trimChars cs) = Text.contains "break".toList cs :=
    Text.contains_trimChars (by decide) (by decide)
  rw [issuesAt, issuesAt, Text.trimChars_trimChars, ← List.map_drop, ← List.map_take, List.any_map]
  simp only [Function.comp_def, hbreak]

theorem issuesOf_map_trimChars (lines : List (List Char)) :
    issuesOf (lines.map Text.trimChars) = issuesOf lines := by
  rw [issuesOf, List.zipIdx_map, List.flatMap_map, issuesOf]
  exact List.flatMap_congr fun l _ => issuesAt_map_trimChars lines l.2 l.1

theorem statements_eq_map_solidLines (code : String) :
    statements code = (solidLines code).map Text.trimChars := by
  rw [statements, solidLines, List.filter_map]
  rfl

/-- **Warnings are found on statements.** -/
theorem potentialIssues_eq (code : String) : potentialIssues code = issuesOf (statements code) := by
  rw [statements_eq_map_solidLines, issuesOf_map_trimChars, potentialIssues]

/-! ## The statements of a text -/

/-- The statement that a line is, none if the line is blank. -/
def statementOf (line : List Char) : List (List Char) :=
  [Text.trimChars line].filter (!·.isEmpty)

/-- The statements of `cs`, where `current` has been read of the first line, last character first. -/
def statementsFrom (current cs : List Char) : List (List Char) :=
  ((Text.splitLinesFrom current cs).map Text.trimChars).filter (!·.isEmpty)

theorem statements_eq (code : String) : statements code = statementsFrom [] code.toList := rfl

theorem statementsFrom_nil (current : List Char) :
    statementsFrom current [] = statementOf current.reverse := by
  rw [statementsFrom, Text.splitLinesFrom]
  cases current with
  | nil => rfl
  | cons c current => rfl

theorem statementsFrom_newLine (current cs : List Char) :
    statementsFrom current ('\n' :: cs) = statementOf current.reverse ++ statementsFrom [] cs := by
  have htrim := Text.trimChars_closeLine current.reverse
  rw [List.reverse_reverse] at htrim
  rw [statementsFrom, Text.splitLinesFrom, List.map_cons, htrim, ← List.singleton_append, List.filter_append]
  rfl

theorem statementsFrom_cons {c : Char} (hc : c ≠ '\n') (current cs : List Char) :
    statementsFrom current (c :: cs) = statementsFrom (c :: current) cs := by
  rw [statementsFrom, Text.splitLinesFrom, statementsFrom]
  exact hc

/-- Blanks at the beginning of the first line are not seen. -/
theorem statementsFrom_append_blanks {blanks : List Char} (h : ∀ c ∈ blanks, Text.isBlank c = true)
    (current cs : List Char) : statementsFrom (current ++ blanks) cs = statementsFrom current cs := by
  -- Induction on what is still to be read; it is added to the line before the blanks.
  have hline : ∀ current, statementOf (current ++ blanks).reverse = statementOf current.reverse := by
    intro current
    have hreverse : ∀ c ∈ blanks.reverse, Text.isBlank c = true := fun c hc => h c (List.mem_reverse.mp hc)
    rw [statementOf, List.reverse_append, Text.trimChars_blanks_append hreverse, statementOf]
  induction cs generalizing current with
  | nil => rw [statementsFrom_nil, statementsFrom_nil, hline]
  | cons c cs ih =>
      by_cases hc : c = '\n'
      · rw [hc, statementsFrom_newLine, statementsFrom_newLine, hline]
      · rw [statementsFrom_cons hc, statementsFrom_cons hc, ← List.cons_append, ih]

/-- Indentation is not seen. -/
theorem statementsFrom_spaces (n : Nat) (cs : List Char) :
    statementsFrom [] (List.replicate n ' ' ++ cs) = statementsFrom [] cs := by
  have hspaces : '\n' ∉ List.replicate n ' ' := fun hmem =>
    absurd (List.eq_of_mem_replicate hmem) (by decide)
  have hblank : ∀ c ∈ (List.replicate n ' ').reverse, Text.isBlank c = true := fun c hc =>
    Text.isBlank_of_mem_spaces c (List.mem_reverse.mp hc)
  have hread := statementsFrom_append_blanks hblank [] cs
  rwa [List.nil_append, ← List.append_nil (List.replicate n ' ').reverse, statementsFrom,
    ← Text.splitLinesFrom_append hspaces] at hread

/-- **A line feed keeps what stands before it apart from what stands after it**, however many lines
    either of them is. -/
theorem statementsFrom_append (current cs rest : List Char) :
    statementsFrom current (cs ++ '\n' :: rest) = statementsFrom current cs ++ statementsFrom [] rest := by
  induction cs generalizing current with
  | nil => rw [List.nil_append, statementsFrom_newLine, statementsFrom_nil]
  | cons c cs ih =>
      rw [List.cons_append]
      by_cases hc : c = '\n'
      · rw [hc, statementsFrom_newLine, ih, statementsFrom_newLine, List.append_assoc]
      · rw [statementsFrom_cons hc, ih, statementsFrom_cons hc]

/-! ## The statements of a written source -/

/-- The statements of emitted blocks are those of their lines. -/
theorem statementsFrom_linesText (width : Nat) (es : List (Nat × Block)) (rest : List Char) :
    statementsFrom [] ((linesText width es).toList ++ rest)
      = (es.flatMap fun e => statements e.2.line) ++ statementsFrom [] rest := by
  induction es with
  | nil => rfl
  | cons e es ih =>
      rw [linesText_cons, String.toList_append, toList_lineText, List.append_assoc, List.append_assoc,
        List.append_assoc, statementsFrom_spaces, List.singleton_append, statementsFrom_append, ih,
        List.flatMap_cons, List.append_assoc, statements_eq]

/-- The line feeds between groups are not seen. -/
theorem statements_intercalate (width : Nat) (groups : List (List (Nat × Block))) :
    statements ("\n".intercalate (groups.map (linesText width)))
      = groups.flatten.flatMap fun e => statements e.2.line := by
  induction groups with
  | nil => rfl
  | cons es groups ih =>
      have hlines := statementsFrom_linesText width es
      cases groups with
      | nil =>
          rw [List.map_cons, List.map_nil, String.intercalate_singleton, statements_eq,
            ← List.append_nil (linesText width es).toList, hlines, List.flatten_cons, List.flatten_nil,
            List.append_nil, statementsFrom_nil]
          exact List.append_nil _
      | cons es' groups =>
          rw [List.map_cons, List.map_cons, String.intercalate_cons_cons, ← List.map_cons, statements_eq,
            String.toList_append, String.toList_append, List.append_assoc, hlines, List.flatten_cons,
            List.flatMap_append, ← ih]
          exact congrArg _ (statementsFrom_newLine [] _)

end Source

namespace Forest

open Source

/-- **The statements of a written source**: those of the lines that are written, or those of the
    placeholder. How far lines are indented is not among what they depend on. -/
theorem statements_generate (f : Forest) (options : Options) :
    statements (f.generate options) =
      if f.groups options.rowThreshold = [] then statements options.placeholder
      else (f.groups options.rowThreshold).flatten.flatMap fun e => statements e.2.line := by
  rw [generate_eq_groups]
  cases hgroups : f.groups options.rowThreshold with
  | nil => rfl
  | cons es groups =>
      rw [if_neg (List.cons_ne_nil _ _)]
      exact statements_intercalate _ _

/-- The statements of a source are the same for every indentation. -/
theorem statements_generate_indentWidth (f : Forest) (options : Options) (width : Nat) :
    statements (f.generate { options with indentWidth := width }) = statements (f.generate options) := by
  rw [statements_generate, statements_generate]

/-- **Counts and warnings do not see the layout.** They are the same for two texts with the same
    statements, the numbers in the warnings included; and so they are for the sources of a forest, whatever
    it holds, with any two indentations. -/
theorem layout_unseen :
    (∀ code code' : String, statements code = statements code' →
      codeStats code = codeStats code' ∧ potentialIssues code = potentialIssues code') ∧
    (∀ (f : Forest) (options : Options) (width : Nat),
      codeStats (f.generate { options with indentWidth := width }) = codeStats (f.generate options) ∧
      potentialIssues (f.generate { options with indentWidth := width })
        = potentialIssues (f.generate options)) := by
  have htexts : ∀ code code' : String, statements code = statements code' →
      codeStats code = codeStats code' ∧ potentialIssues code = potentialIssues code' := by
    intro code code' h
    rw [potentialIssues_eq, potentialIssues_eq, codeStats, codeStats, h]
    exact ⟨rfl, rfl⟩
  exact ⟨htexts, fun f options width => htexts _ _ (f.statements_generate_indentWidth options width)⟩

/-- A function that holds a comment of three lines, of which only the first one is indented. -/
def longComment : Forest :=
  (Workspace.empty.applyAll
    [.insert "function" .origin, .insert "comment" .origin, .group "function-1" "comment-2",
      .update "comment-2" ⟨.ofList [("text", .text "wait\nwhile True:\n\n  x = 1 / 0")], none, none⟩]).1.forest

/-- An endless loop with a division in it, written in two ways, and the same two lines written as parts of
    a comment. -/
theorem layout_unseen_longComment :
    statements "while True:\n\n    x = 1 / 0\n" = statements "\twhile True:  \r\n \r\nx = 1 / 0 " ∧
    potentialIssues "while True:\n\n    x = 1 / 0\n" = potentialIssues "\twhile True:  \r\n \r\nx = 1 / 0 " ∧
    potentialIssues "while True:\n\n    x = 1 / 0\n"
      = ["Line 1: Potential infinite loop detected", "Line 2: Division by zero detected"] ∧
    longComment.generate { indentWidth := 2 }
      = "def my_function():\n  # wait\nwhile True:\n\n  x = 1 / 0\n" ∧
    potentialIssues (longComment.generate { indentWidth := 2 }) = potentialIssues (longComment.generate {}) ∧
    potentialIssues (longComment.generate {})
      = ["Line 3: Potential infinite loop detected", "Line 4: Division by zero detected"] := by
  have hstatements : statements "while True:\n\n    x = 1 / 0\n"
      = statements "\twhile True:  \r\n \r\nx = 1 / 0 " := by decide +kernel
  obtain ⟨htexts, hsources⟩ := layout_unseen
  exact ⟨hstatements, (htexts _ _ hstatements).2, by decide +kernel, by decide +kernel,
    (hsources longComment {} 2).2, by decide +kernel⟩

end Forest

end Blockwork
