import Blockwork.Proofs.Source.Messages
import Blockwork.Proofs.Source.SpecialValues
import Mathlib.Tactic.IntervalCases

/-!
# `Blockwork.Proofs.Source.Stability`: lines that are written the same way again

Every rule has been shown to read back what is written for its lines. Two kinds of lines are left out.
A header whose value is blank is written without a value, and no rule reads that as the same header.
And a keyword that is assigned to may be read as the header that it introduces; blanks before the colon,
or around a word that divides the values of the header, are then blanks of the header and are not kept.

## Contents
- `Reading.Clear`, the readings of all other lines.
- `stable_if`, `stable_elif`, `stable_while`, `stable_match`, `stable_case`.
- `stable_of_recognise?`, and `Statement.stable_content`: what a clear statement says is written stably.
- `Statement.inline_content`, and `line_block_ofLine`: it is the one line of the block.
-/

namespace Blockwork.Source

open Pattern

variable {k : Nat} {line : List Char} {r : Reading}

/-! ## Clear readings -/

/-- A header has the values that its line names, and an assignment to the keyword of a header is laid out
    as the header is written. -/
structure Reading.Clear (r : Reading) : Prop where
  filled : r.block.val.id ∈ headers → ∀ v ∈ r.values, v.2 ≠ []
  named : r.block.val.id = "variable" → ∀ name ∈ r.values.lookup "name", String.ofList name ∈ headers →
    ∀ value ∈ r.values.lookup "value", Tidy (String.ofList name) ('=' :: ' ' :: value)

instance (r : Reading) : Decidable r.Clear :=
  decidable_of_iff
    ((r.block.val.id ∈ headers → ∀ v ∈ r.values, v.2 ≠ []) ∧
      (r.block.val.id = "variable" → ∀ name ∈ r.values.lookup "name", String.ofList name ∈ headers →
        ∀ value ∈ r.values.lookup "value", Tidy (String.ofList name) ('=' :: ' ' :: value)))
    ⟨fun h => ⟨h.1, h.2⟩, fun h => ⟨h.filled, h.named⟩⟩

/-! ## Headers with a value -/

/-- A keyword that no earlier rule begins with, a value and a colon. -/
theorem Rule.stable_suite_of_clash (hk : k < rules.length) (keyword name default : String)
    (hrule : rules[k].pattern = suite keyword name)
    (hlays : Slot.Lays [⟨keyword ++ " ", name, default, none⟩] ":" rules[k].block.val)
    (hflush : Text.Flush keyword.toList) (hkeyword : keyword.toList ≠ [])
    (hclash : ∀ rule ∈ rules.take k, rule.pattern.clashes keyword.toList = true)
    (h : rules[k].reading? line = some r) (hvalues : ∀ v ∈ r.values, v.2 ≠ []) : r.Stable :=
  stable_suite hk keyword name default hrule hlays hflush hkeyword h hvalues
    fun _ _ _ _ _ _ hlength hj => reading?_eq_none_of_clash _ hclash hj hlength _

theorem stable_if (h : rules[4].reading? line = some r) (hvalues : ∀ v ∈ r.values, v.2 ≠ []) :
    r.Stable :=
  Rule.stable_suite_of_clash (by decide) "if" "condition" "True" rfl (by decide +kernel)
    (Text.flush_cons.mpr (by decide)) (by simp) (by decide) h hvalues

theorem stable_elif (h : rules[5].reading? line = some r) (hvalues : ∀ v ∈ r.values, v.2 ≠ []) :
    r.Stable :=
  Rule.stable_suite_of_clash (by decide) "elif" "condition" "True" rfl (by decide +kernel)
    (Text.flush_cons.mpr (by decide)) (by simp) (by decide) h hvalues

theorem stable_while (h : rules[8].reading? line = some r) (hvalues : ∀ v ∈ r.values, v.2 ≠ []) :
    r.Stable :=
  Rule.stable_suite_of_clash (by decide) "while" "condition" "True" rfl (by decide +kernel)
    (Text.flush_cons.mpr (by decide)) (by simp) (by decide) h hvalues

theorem stable_match (h : rules[9].reading? line = some r) (hvalues : ∀ v ∈ r.values, v.2 ≠ []) :
    r.Stable :=
  Rule.stable_suite_of_clash (by decide) "match" "value" "variable" rfl (by decide +kernel)
    (Text.flush_cons.mpr (by decide)) (by simp) (by decide) h hvalues

/-- The case for everything else is an underscore between blanks. -/
theorem fits_caseDefault {cs : List Char} {parts : List (String × List Char)} :
    Fits rules[10].pattern parts cs ↔ ∃ before after, before ≠ [] ∧
      (∀ c ∈ before, Text.isBlank c = true) ∧ (∀ c ∈ after, Text.isBlank c = true) ∧ parts = [] ∧
      cs = "case".toList ++ (before ++ '_' :: (after ++ [':'])) := by
  have hrule : rules[10].pattern = text "case" ++ (space ++ (text "_" ++ (gap ++ text ":"))) := rfl
  rw [hrule]
  simp only [fits_text_append, fits_space_append, fits_gap_append, fits_text]
  constructor
  · rintro ⟨_, rfl, before, _, hne, hbefore, rfl, _, rfl, after, _, hafter, rfl, rfl, rfl⟩
    exact ⟨before, after, hne, hbefore, hafter, rfl, rfl⟩
  · rintro ⟨before, after, hne, hbefore, hafter, rfl, rfl⟩
    exact ⟨_, rfl, before, _, hne, hbefore, rfl, _, rfl, after, _, hafter, rfl, rfl, rfl⟩

/-- A pattern that is written as the case for everything else was that case in the line. -/
theorem stable_case (h : rules[11].reading? line = some r) (hvalues : ∀ v ∈ r.values, v.2 ≠ [])
    (hearlier : rules[10].reading? line = none) : r.Stable := by
  refine Rule.stable_suite (by decide) "case" "pattern" "1" rfl (by decide +kernel)
    (Text.flush_cons.mpr (by decide)) (by simp) h hvalues
    fun blanks part hblanks hall hline j hlength hj => ?_
  rcases Nat.lt_or_eq_of_le (Nat.le_of_lt_succ hj) with hlt | rfl
  · exact reading?_eq_none_of_clash "case".toList (k := 10) (by decide) hlt hlength _
  cases hreading : rules[10].reading? ("case".toList ++ ' ' :: (Text.trimChars part ++ [':'])) with
  | none => rfl
  | some again =>
      obtain ⟨parts, hfits, -⟩ := Rule.exists_fits hreading
      obtain ⟨before, after, hbefore, hallBefore, hafter, -, hsame⟩ := fits_caseDefault.mp hfits
      have hflush : Text.Flush (Text.trimChars part ++ [':']) := by
        by_cases hnil : Text.trimChars part = []
        · rw [hnil]
          exact Text.flush_cons.mpr (by decide)
        · exact (Text.flush_trimChars part).append hnil _
      have hsame := eq_of_blanks_append hbefore hallBefore hflush hsame
      rw [← List.cons_append] at hsame
      have hpart : Text.trimChars part = '_' :: after := (List.append_cancel_right hsame).symm
      obtain ⟨left, right, hleft, hright, hcut⟩ := Text.exists_blanks_trimChars part
      -- The blanks around the pattern do not matter to the rule that comes before.
      refine absurd (fits_caseDefault.mpr
        ⟨blanks ++ left, after ++ right, by simp [hblanks], ?_, ?_, rfl, ?_⟩) (Rule.not_fits hearlier [])
      · exact List.forall_mem_append.mpr ⟨hall, hleft⟩
      · exact List.forall_mem_append.mpr ⟨hafter, hright⟩
      · rw [hline, hcut, hpart]
        simp

/-! ## Lines without values -/

/-- A line of a rule that names no values. -/
theorem Rule.stable_bare (hk : k < rules.length) (id : String)
    (hid : id ∈ ["else", "case_default", "try", "except", "finally", "break", "continue", "return"])
    (hblock : rules[k].block ∈ Catalog.lookup id)
    (hnone : ∀ parts cs, Fits rules[k].pattern parts cs → parts = [])
    (h : rules[k].reading? line = some r) : r.Stable := by
  obtain ⟨parts, hfits, rfl⟩ := Rule.exists_fits h
  rw [hnone parts line hfits]
  exact Source.stable_bare id hid _ hblock

theorem stable_caseDefault (h : rules[10].reading? line = some r) : r.Stable := by
  refine Rule.stable_bare (by decide) "case_default" (by simp) rfl (fun parts cs hfits => ?_) h
  obtain ⟨_, _, -, -, -, rfl, -⟩ := fits_caseDefault.mp hfits
  rfl

theorem parts_eq_nil_of_bareSuite (keyword : String) (parts : List (String × List Char)) (cs : List Char)
    (h : Fits (bareSuite keyword) parts cs) : parts = [] := by
  simp only [bareSuite, List.append_assoc, fits_text_append, fits_gap_append, fits_text] at h
  obtain ⟨_, -, _, _, -, -, rfl, -⟩ := h
  rfl

/-! ## All lines -/

theorem Reading.Clear.values (hclear : r.Clear) (hk : k < rules.length)
    (h : rules[k].reading? line = some r) (hheader : rules[k].block.val.id ∈ headers) :
    ∀ v ∈ r.values, v.2 ≠ [] := by
  obtain ⟨values, -, rfl⟩ := Option.map_eq_some_iff.mp h
  exact hclear.filled hheader

theorem stable_assignment (hline : Text.Flush line.reverse) (hinline : ∀ c ∈ line, isInline c = true)
    (h : rules[29].reading? line = some r) (hclear : r.Clear)
    (hearlier : ∀ j (hj : j < rules.length), j < 29 → rules[j].reading? line = none) : r.Stable := by
  refine stable_variable hline hinline h hearlier fun name value hvalues hheader => ?_
  have hblock : r.block.val.id = "variable" := by
    obtain ⟨values, -, rfl⟩ := Option.map_eq_some_iff.mp h
    rfl
  exact hclear.named hblock name (by rw [hvalues]; rfl) hheader value (by rw [hvalues]; rfl)

/-- **A clear line is written the same way again.** -/
theorem stable_of_recognise? (htrim : Text.trimChars line = line) (hinline : ∀ c ∈ line, isInline c = true)
    (h : recognise? line = some r) (hclear : r.Clear) : r.Stable := by
  obtain ⟨k, hk, h, hearlier⟩ := exists_rule_of_recognise? h
  have hline : Text.Flush line.reverse := htrim ▸ Text.flush_reverse_trimChars line
  have hrules : k < 31 := hk
  -- One rule after another, in their order.
  interval_cases k
  · exact stable_import_as h
  · exact stable_import_from h
  · exact stable_class h
  · exact stable_function h
  · exact stable_if h (hclear.values (k := 4) (by decide) h (by decide))
  · exact stable_elif h (hclear.values (k := 5) (by decide) h (by decide))
  · exact Rule.stable_bare hk "else" (by simp) rfl (parts_eq_nil_of_bareSuite "else") h
  · exact stable_for hinline h (hclear.values (k := 7) (by decide) h (by decide))
  · exact stable_while h (hclear.values (k := 8) (by decide) h (by decide))
  · exact stable_match h (hclear.values (k := 9) (by decide) h (by decide))
  · exact stable_caseDefault h
  · exact stable_case h (hclear.values (k := 11) (by decide) h (by decide)) (hearlier 10 (by decide))
  · exact Rule.stable_bare hk "try" (by simp) rfl (parts_eq_nil_of_bareSuite "try") h
  · exact stable_except h (hclear.values (k := 13) (by decide) h (by decide))
  · exact Rule.stable_bare hk "finally" (by simp) rfl (parts_eq_nil_of_bareSuite "finally") h
  · exact stable_raise hline h
  · exact stable_return hline h
  · exact Rule.stable_bare hk "break" (by simp) rfl (fun _ _ hfits => (fits_text.mp hfits).1) h
  · exact Rule.stable_bare hk "continue" (by simp) rfl (fun _ _ hfits => (fits_text.mp hfits).1) h
  · exact stable_print h
  · exact stable_of_comment h
  · exact stable_input hinline h
  · exact stable_len hinline h
  · exact stable_range hinline h
  · exact stable_range_stop hinline h
  · exact stable_list hinline h
  · exact stable_dict hinline h
  · exact stable_instance hinline h
  · exact stable_attribute hline hinline h
  · exact stable_assignment hline hinline h hclear fun j _ hj => hearlier j hj
  · exact stable_call h

/-! ## The statements of a source -/

theorem mem_of_mem_closeLine {line : List Char} {c : Char} (hc : c ∈ Text.closeLine line) : c ∈ line := by
  have h := Text.closeLine_reverse line.reverse
  rw [List.reverse_reverse] at h
  rw [← List.mem_reverse]
  rcases h with h | h
  · rw [h]
    exact List.mem_append_left _ hc
  · rwa [h] at hc

theorem inline_splitLinesFrom {current : List Char} (hcurrent : ∀ c ∈ current, isInline c = true)
    (cs : List Char) : ∀ line ∈ Text.splitLinesFrom current cs, ∀ c ∈ line, isInline c = true := by
  fun_induction Text.splitLinesFrom current cs with
  | case1 => simp
  | case2 current _ =>
      intro line hline c hc
      rw [List.mem_singleton.mp hline, List.mem_reverse] at hc
      exact hcurrent c hc
  | case3 current cs ih =>
      refine List.forall_mem_cons.mpr ⟨fun c hc => hcurrent c (mem_of_mem_closeLine hc), ih (by simp)⟩
  | case4 current c cs hc ih =>
      refine ih (List.forall_mem_cons.mpr ⟨?_, hcurrent⟩)
      exact bne_iff_ne.mpr hc

/-- A line of a source is trimmed, not empty, and one line. -/
theorem Line.text_of_mem {source : String} {l : Line} (hl : l ∈ Line.ofSource source) :
    Text.trimChars l.text = l.text ∧ l.text ≠ [] ∧ ∀ c ∈ l.text, isInline c = true := by
  have hmem : (l.indent, l.text) ∈ outline source.toList := by
    rw [outline, ← map_outline_linesFrom 1 1]
    exact List.mem_map_of_mem (f := fun l : Line => (l.indent, l.text)) hl
  obtain ⟨hmem, hne⟩ := List.mem_filter.mp hmem
  obtain ⟨line, hline, heq⟩ := List.mem_map.mp hmem
  obtain ⟨-, htext⟩ := Prod.mk.inj heq
  rw [← htext]
  refine ⟨Text.trimChars_trimChars line, ?_, fun c hc => ?_⟩
  · rw [htext]
    simpa using hne
  · exact inline_splitLinesFrom (by simp) _ line hline c (Text.mem_of_mem_trimChars hc)

/-- What a line says is part of it. -/
theorem inline_of_recognise? (hinline : ∀ c ∈ line, isInline c = true) (h : recognise? line = some r) :
    ∀ v ∈ r.values, ∀ c ∈ v.2, isInline c = true := by
  obtain ⟨k, hk, hreading, -⟩ := exists_rule_of_recognise? h
  obtain ⟨parts, hfits, rfl⟩ := Rule.exists_fits hreading
  intro v hv c hc
  obtain ⟨part, hpart, rfl⟩ := List.mem_map.mp hv
  exact hinline c (mem_of_fits hfits hpart (Text.mem_of_mem_trimChars hc))

variable {source : String} {s : Statement}

theorem exists_line_of_mem (hs : s ∈ statementsOf source) :
    ∃ l ∈ Line.ofSource source, Statement.ofLine l = s :=
  List.mem_map.mp hs

/-- **What a clear statement says is written stably**, and so is what is kept of an unknown one. -/
theorem Statement.stable_content (hs : s ∈ statementsOf source) (hclear : ∀ r ∈ s.reading, r.Clear) :
    s.content.Stable := by
  obtain ⟨l, hl, rfl⟩ := exists_line_of_mem hs
  obtain ⟨htrim, hne, hinline⟩ := Line.text_of_mem hl
  cases hreading : recognise? l.text with
  | some r =>
      rw [content, ofLine, hreading]
      exact stable_of_recognise? htrim hinline hreading (hclear r hreading)
  | none =>
      rw [content, ofLine, hreading]
      exact stable_unparsed htrim hne hinline

/-- One line is written for a statement. -/
theorem Statement.inline_content (hs : s ∈ statementsOf source) :
    ∀ c ∈ s.content.written, isInline c = true := by
  obtain ⟨l, hl, rfl⟩ := exists_line_of_mem hs
  obtain ⟨-, -, hinline⟩ := Line.text_of_mem hl
  refine inline_written ?_
  cases hreading : recognise? l.text with
  | some r =>
      rw [content, ofLine, hreading]
      exact inline_of_recognise? hinline hreading
  | none =>
      rw [content, ofLine, hreading]
      have hmark : ∀ c ∈ unparsedMark.toList, isInline c = true := by decide
      exact List.forall_mem_singleton.mpr (List.forall_mem_append.mpr ⟨hmark, hinline⟩)

/-! ## The lines of blocks -/

/-- A line that says function gives both parameters. -/
theorem values_of_function (h : recognise? line = some r) (hkind : r.block.val.kind = .function) :
    ∃ name params, r.values = [("name", name), ("params", params)] := by
  have honly : ∀ k, ∀ hk : k < rules.length, rules[k].block.val.kind = .function → k = 3 := by
    decide +kernel
  obtain ⟨k, hk, hreading, -⟩ := exists_rule_of_recognise? h
  obtain ⟨parts, hfits, rfl⟩ := Rule.exists_fits hreading
  obtain rfl := honly k hk hkind
  rw [rule_function, identifier, fits_name] at hfits
  obtain ⟨blanks, name, after, rest, -, -, -, -, htail, rfl, -⟩ := hfits
  obtain ⟨-, params, -, -, -, rfl, -⟩ := exists_of_fits_functionTail htail
  exact ⟨_, _, rfl⟩

/-- **The line of a block is what its statement is written as**, wherever the block stands. -/
theorem line_block_ofLine (l : Line) (parent : Option Block) :
    ((Statement.ofLine l).block parent).line.toList = (Statement.ofLine l).content.written := by
  rw [toList_line_block]
  rcases definition_cases parent (Statement.ofLine l) with h | ⟨hkind, h⟩
  · rw [h]
  · have hrecognised : recognise? l.text = some (Statement.ofLine l).content := by
      cases hreading : recognise? l.text with
      | some r =>
          rw [Statement.content, Statement.ofLine, hreading]
          rfl
      | none =>
          have hcomment : Catalog.comment.val.kind ≠ .function := by decide
          rw [Statement.content, Statement.ofLine, hreading] at hkind
          exact absurd hkind hcomment
    obtain ⟨name, params, hvalues⟩ := values_of_function hrecognised hkind
    have hfunction := (eq_entry_of_kind (Statement.ofLine l).content.block).2 hkind
    rw [h, hvalues, written_method, ← hfunction, ← hvalues]

end Blockwork.Source
