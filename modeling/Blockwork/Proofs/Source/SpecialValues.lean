import Blockwork.Proofs.Source.Assignments

/-!
# `Blockwork.Proofs.Source.SpecialValues`: assignments of special values, and lines with a dot

A value between two texts, an instance and a range are written with trimmed values, and read again as
they are. A range is always written with a step. A line with a dot sets an attribute or calls a method.

## Contents
- `Reading.stable_of_special`: only the rules for the first character of the value matter.
- `stable_enclosed`, for input, lengths, lists and dictionaries; `stable_instance`; `stable_of_range`.
- `Reading.stable_of_dotted`, with `stable_attribute` and `stable_call`.
-/

namespace Blockwork.Source

open Pattern

variable {k : Nat} {line cs : List Char} {r : Reading} {parts : List (String × List Char)}

/-! ### Special values -/

section Special

variable {name value : List Char}

/-- An assignment of a special value comes back if the rules for its first character write it in the same
    way. -/
theorem Reading.stable_of_special (hk : 21 ≤ k) (hk' : k < 28) (hlength : k < rules.length)
    (hblock : r.block = rules[k].block) (hne : name ≠ []) (hname : ∀ c ∈ name, Text.isWord c = true)
    (htrim : Text.trimChars value = value) (hinline : ∀ c ∈ value, isInline c = true)
    (hlast : value.getLast? ≠ some ':') (hwritten : r.written = assigning name value) {c : Char}
    (hc : value.head? = some c)
    (hrules : ∀ j found, j ∈ specialRules c → ∀ hj : j < rules.length, Fits (specialValue j) found value →
      Reading.written ⟨rules[j].block, (specialTarget j, name) :: trimmed found⟩ = assigning name value) :
    r.Stable := by
  have hown : ∀ rule ∈ rules.drop 21, rule.block.val.canOwnChildren = false := by decide +kernel
  have hgroup := bucket_of_later rules[k] (List.mem_drop_iff_getElem.mpr ⟨k - 4, by omega, by congr 1; omega⟩)
  have hvalue : value ≠ [] := by
    rintro rfl
    cases hc
  have hopen : ('=' :: ' ' :: value).getLast? ≠ some ':' := by
    rwa [List.getLast?_cons_cons, List.getLast?_cons_of_ne_nil hvalue]
  refine stable_of_assigned hne hname hvalue htrim hinline (fun _ hcolon => absurd hcolon hopen) ?_
    (hblock ▸ hgroup) hwritten fun j again hj hj' hlength hagain => ?_
  · rw [hblock]
    exact hown rules[k] (List.mem_drop_iff_getElem.mpr ⟨k - 21, by omega, by congr 1; omega⟩)
  · obtain ⟨parts, hfits, rfl⟩ := Rule.exists_fits hagain
    rw [pattern_special hj hj' hlength, assigning] at hfits
    have hflush : Text.Flush value := htrim ▸ Text.flush_trimChars value
    obtain ⟨found, hfound, rfl⟩ := (fits_assigned_iff (flush_specialValue hj hj') hne hname
      (by decide : ∀ c ∈ [' '], Text.isBlank c = true) (by decide : ∀ c ∈ [' '], Text.isBlank c = true)
      hflush).mp hfits
    -- A rule that reads the value begins with its first character.
    obtain ⟨d, rest, rfl, hd⟩ := mem_specialRules hj hj' hfound
    obtain rfl := Option.some.inj hc
    have hnameTrim : Text.trimChars name = name := Text.trimChars_of_isWord hname
    rw [trimmed_cons, hnameTrim]
    exact hrules j found hd hlength hfound

/-- What is read of a special assignment. -/
theorem exists_of_reads_special (hk : 21 ≤ k) (hk' : k < 28) (hlength : k < rules.length)
    (h : rules[k].reading? line = some r) : ∃ name found value, name ≠ [] ∧
      (∀ c ∈ name, Text.isWord c = true) ∧ Fits (specialValue k) found value ∧ (∀ c ∈ value, c ∈ line) ∧
      r = ⟨rules[k].block, (specialTarget k, name) :: trimmed found⟩ := by
  obtain ⟨parts, hfits, rfl⟩ := Rule.exists_fits h
  rw [pattern_special hk hk' hlength] at hfits
  obtain ⟨name, before, after, found, value, hne, hname, -, -, hfound, rfl, rfl⟩ := fits_assigned.mp hfits
  have hnameTrim : Text.trimChars name = name := Text.trimChars_of_isWord hname
  exact ⟨name, found, value, hne, hname, hfound, fun c hc => by simp [hc], by rw [trimmed_cons, hnameTrim]⟩

/-- The line of two parameters. -/
theorem written_two {e : Entry} {lead₁ name₁ default₁ lead₂ name₂ default₂ ending : String}
    (h : Slot.Lays [⟨lead₁, name₁, default₁, none⟩, ⟨lead₂, name₂, default₂, none⟩] ending e.val)
    (hne : name₁ ≠ name₂) (value₁ value₂ : List Char) :
    Reading.written ⟨e, [(name₁, value₁), (name₂, value₂)]⟩
      = lead₁.toList ++ (value₁ ++ (lead₂.toList ++ (value₂ ++ ending.toList))) := by
  have hfirst : (name₁ == name₂) = false := beq_eq_false_iff_ne.mpr hne
  rw [written_eq h]
  simp [Slot.text, List.lookup_cons, hfirst]

/-- A value between two texts. -/
theorem stable_enclosed {d : Char} (hk : 21 ≤ k) (hk' : k < 28) (hlength : k < rules.length)
    (before parameter : String) (inner : Pattern) (after default₁ default₂ : String)
    (hpattern : specialValue k = enclosed before parameter inner after)
    (hinner : ∀ inside cs, Fits inner inside cs → inside = [])
    (hhead : before.toList.head?.map specialRules = some [k])
    (hafter : after.toList.getLast? = some d) (hclosing : Text.isBlank d = false ∧ d ≠ ':')
    (hinline : ∀ c ∈ before.toList ++ after.toList, isInline c = true)
    (hlays : Slot.Lays [⟨"", specialTarget k, default₁, none⟩, ⟨" = " ++ before, parameter, default₂, none⟩]
      after rules[k].block.val) (hnames : specialTarget k ≠ parameter)
    (hline : ∀ c ∈ line, isInline c = true) (h : rules[k].reading? line = some r) : r.Stable := by
  obtain ⟨name, found, value, hname, hword, hfound, hmem, rfl⟩ := exists_of_reads_special hk hk' hlength h
  rw [hpattern] at hfound
  obtain ⟨inside, value, hvalue, rfl, rfl⟩ := fits_enclosed.mp hfound
  obtain rfl := hinner _ _ hvalue
  obtain ⟨c, hc, hrules⟩ := Option.map_eq_some_iff.mp hhead
  obtain ⟨cs, hcs⟩ := List.head?_eq_some_iff.mp hc
  have hbefore : Text.Flush before.toList := by
    rw [hcs, Text.flush_cons]
    exact isBlank_eq_false_of_mem_specialRules (hrules ▸ List.mem_singleton_self k)
  have hne : before.toList ≠ [] := hcs ▸ List.cons_ne_nil c cs
  have hne' : after.toList ≠ [] := fun hnil => by simp [hnil] at hafter
  have hwritten : ∀ name value,
      Reading.written ⟨rules[k].block, [(specialTarget k, name), (parameter, value)]⟩
        = assigning name (before.toList ++ (value ++ after.toList)) := by
    intro name value
    rw [written_two hlays hnames]
    simp [assigning]
  have hlast : (before.toList ++ (Text.trimChars value ++ after.toList)).getLast? = some d := by
    rw [← List.append_assoc, List.getLast?_append_of_ne_nil _ hne', hafter]
  refine Reading.stable_of_special hk hk' hlength rfl hname hword
    (Text.trimChars_eq_self (hbefore.append hne _) ?_) ?_ (fun hcolon => ?_) (hwritten name _)
    (by rw [hcs]; rfl) fun j found hj hlength hfits => ?_
  · rw [Text.flush_reverse_append (by simp [hne']), Text.flush_reverse_append hne', Text.Flush,
      List.head?_reverse]
    rw [hafter]
    rintro c ⟨⟩
    exact hclosing.1
  · intro c hc
    simp only [List.mem_append] at hc hinline
    rcases hc with hc | hc | hc
    · exact hinline c (Or.inl hc)
    · exact hline c (hmem c (by simp [Text.mem_of_mem_trimChars hc]))
    · exact hinline c (Or.inr hc)
  · rw [hlast] at hcolon
    exact hclosing.2 (Option.some.inj hcolon)
  · obtain rfl := List.mem_singleton.mp (hrules ▸ hj)
    rw [hpattern] at hfits
    obtain ⟨inside, value', hvalue', rfl, hsame⟩ := fits_enclosed.mp hfits
    obtain rfl := hinner _ _ hvalue'
    rw [List.append_cancel_left_eq, List.append_cancel_right_eq] at hsame
    rw [List.nil_append, trimmed_cons, trimmed_nil, ← hsame, Text.trimChars_trimChars]
    exact hwritten name _

theorem stable_input (hline : ∀ c ∈ line, isInline c = true) (h : rules[21].reading? line = some r) :
    r.Stable :=
  stable_enclosed (by decide) (by decide) (by decide) "input(\"" "prompt" [.many isInline] "\")"
    "user_input" "Enter value: " rfl (fun _ _ h => (fits_many.mp h).1) rfl rfl (by decide)
    (by decide) (by decide +kernel) (by decide) hline h

theorem stable_len (hline : ∀ c ∈ line, isInline c = true) (h : rules[22].reading? line = some r) :
    r.Stable :=
  stable_enclosed (by decide) (by decide) (by decide) "len(" "object" (run isInline) ")" "result" "my_list"
    rfl (fun _ _ h => (fits_run.mp h).1) rfl rfl (by decide) (by decide) (by decide +kernel)
    (by decide) hline h

theorem stable_list (hline : ∀ c ∈ line, isInline c = true) (h : rules[25].reading? line = some r) :
    r.Stable :=
  stable_enclosed (by decide) (by decide) (by decide) "[" "items" [.many isInline] "]" "my_list" "1, 2, 3"
    rfl (fun _ _ h => (fits_many.mp h).1) rfl rfl (by decide) (by decide) (by decide +kernel)
    (by decide) hline h

theorem stable_dict (hline : ∀ c ∈ line, isInline c = true) (h : rules[26].reading? line = some r) :
    r.Stable :=
  stable_enclosed (by decide) (by decide) (by decide) "\x7b" "items" [.many isInline] "\x7d" "my_dict"
    "\"key\": \"value\"" rfl (fun _ _ h => (fits_many.mp h).1) rfl rfl (by decide) (by decide)
    (by decide +kernel) (by decide) hline h

/-! ### Instances -/

theorem fits_instance : Fits (specialValue 27) parts cs ↔ ∃ c run args, c.isUpper = true ∧
    (∀ d ∈ run, Text.isWord d = true) ∧ (∀ d ∈ args, isInline d = true) ∧
      parts = [("class_name", c :: run), ("args", args)] ∧ cs = c :: run ++ '(' :: (args ++ [')']) := by
  simp only [specialValue, fits_parameter_append, fits_one_many, fits_enclosed, fits_many]
  constructor
  · rintro ⟨_, _, _, _, ⟨rfl, c, run, rfl, hc, hrun⟩, rfl, rfl, _, args, ⟨rfl, hargs⟩, rfl, rfl⟩
    exact ⟨c, run, args, hc, hrun, hargs, rfl, rfl⟩
  · rintro ⟨c, run, args, hc, hrun, hargs, rfl, rfl⟩
    exact ⟨[], c :: run, _, _, ⟨rfl, c, run, rfl, hc, hrun⟩, rfl, rfl, [], args, ⟨rfl, hargs⟩, rfl, rfl⟩

theorem written_instance (name class_name args : List Char) :
    Reading.written ⟨Catalog.entry "instantiate",
        [("variable", name), ("class_name", class_name), ("args", args)]⟩
      = assigning name (class_name ++ '(' :: (args ++ [')'])) := by
  have hlays : Slot.Lays [⟨"", "variable", "obj", none⟩, ⟨" = ", "class_name", "MyClass", none⟩,
      ⟨"(", "args", "", none⟩] ")" (Catalog.entry "instantiate").val := by decide +kernel
  rw [written_eq hlays]
  simp [Slot.text, List.lookup_cons, assigning]

theorem stable_instance (hline : ∀ c ∈ line, isInline c = true) (h : rules[27].reading? line = some r) :
    r.Stable := by
  obtain ⟨name, found, value, hname, hword, hfound, hmem, rfl⟩ :=
    exists_of_reads_special (by decide) (by decide) (by decide) h
  obtain ⟨c, run, args, hc, hrun, hargs, rfl, rfl⟩ := fits_instance.mp hfound
  have hclass : ∀ d ∈ c :: run, Text.isWord d = true :=
    List.forall_mem_cons.mpr ⟨isWord_of_isUpper hc, hrun⟩
  have hclassTrim : Text.trimChars (c :: run) = c :: run := Text.trimChars_of_isWord hclass
  have hvalue : Text.trimChars (c :: run ++ '(' :: (Text.trimChars args ++ [')']))
      = c :: run ++ '(' :: (Text.trimChars args ++ [')']) := by
    refine Text.trimChars_eq_self (Text.flush_cons.mpr (Text.isBlank_eq_false_of_isWord (isWord_of_isUpper hc))) ?_
    simp [Text.Flush]
  rw [trimmed_cons, trimmed_cons, trimmed_nil, hclassTrim]
  refine Reading.stable_of_special (by decide) (by decide) (by decide) rfl hname hword hvalue ?_ ?_
    (written_instance name _ _) rfl fun j found hj hlength hfits => ?_
  · intro d hd
    simp only [List.mem_append, List.mem_cons, List.not_mem_nil, or_false] at hd
    rcases hd with hd | rfl | hd | rfl
    · exact hline d (hmem d (List.mem_append_left _ (List.mem_cons.mpr hd)))
    · decide
    · exact hargs d (Text.mem_of_mem_trimChars hd)
    · decide
  · have hend : c :: run ++ '(' :: (Text.trimChars args ++ [')'])
        = (c :: run ++ '(' :: Text.trimChars args) ++ [')'] := by simp
    rw [hend, List.getLast?_concat]
    decide
  · rw [specialRules_of_isUpper hc] at hj
    obtain rfl := List.mem_singleton.mp hj
    obtain ⟨d, run', args', hd, hrun', -, rfl, hsame⟩ := fits_instance.mp hfits
    have hclass' : ∀ e ∈ d :: run', Text.isWord e = true :=
      List.forall_mem_cons.mpr ⟨isWord_of_isUpper hd, hrun'⟩
    -- The name of the class ends at the parenthesis, which no name contains.
    obtain ⟨hclasses, hsame⟩ := Text.append_inj_of_class hclass hclass' (by rintro e ⟨⟩; decide)
      (by rintro e ⟨⟩; decide) hsame
    have hargs' : Text.trimChars args = args' := List.append_cancel_right (List.cons.inj hsame).2
    rw [trimmed_cons, trimmed_cons, trimmed_nil, ← hclasses, ← hargs', hclassTrim, Text.trimChars_trimChars]
    exact written_instance name _ _

/-! ### Ranges -/

/-- The characters of an argument. -/
abbrev isArgument : Char → Bool :=
  isNone [',', '(', ')']

theorem isArgument_of_isBlank {c : Char} (h : Text.isBlank c = true) : isArgument c = true := by
  have hne : ∀ d ∈ [',', '(', ')'], c ≠ d := by
    rintro d hd rfl
    simp only [List.mem_cons, List.not_mem_nil, or_false] at hd
    rcases hd with rfl | rfl | rfl <;> exact absurd h (by decide)
  simpa [isArgument, isNone] using hne

theorem fits_argument_append {name : String} {ps : Pattern} (h : Fits (argument name ++ ps) parts cs) :
    ∃ value found rest, (∀ c ∈ value, isArgument c = true) ∧ Fits ps found rest ∧
      parts = (name, value) :: found ∧ cs = value ++ rest := by
  obtain ⟨_, value, found, rest, hvalue, rfl, rfl, hrest⟩ := fits_parameter_append.mp h
  obtain ⟨rfl, -, hall⟩ := fits_run.mp hvalue
  exact ⟨value, found, rest, hall, hrest, rfl, rfl⟩

/-- The blanks before a further argument are among its characters, and they are trimmed. -/
theorem fits_comma_append {name : String} {ps : Pattern}
    (h : Fits (comma ++ (argument name ++ ps)) parts cs) :
    ∃ value found rest, (∀ c ∈ value, isArgument c = true) ∧ Fits ps found rest ∧
      trimmed parts = (name, Text.trimChars value) :: trimmed found ∧ cs = ',' :: (value ++ rest) := by
  rw [comma, List.append_assoc] at h
  obtain ⟨_, rfl, hgap⟩ := fits_text_append.mp h
  obtain ⟨blanks, _, hblanks, rfl, hargument⟩ := fits_gap_append.mp hgap
  obtain ⟨value, found, rest, hvalue, hrest, rfl, rfl⟩ := fits_argument_append hargument
  refine ⟨blanks ++ value, found, rest, fun c hc => ?_, hrest, ?_, by simp⟩
  · exact (List.mem_append.mp hc).elim (fun hc => isArgument_of_isBlank (hblanks c hc)) (hvalue c)
  · rw [trimmed_cons, Text.trimChars_blanks_append hblanks]

/-- The arguments of a range, with the blanks around them. -/
theorem exists_of_fits_range (h : Fits (specialValue 23) parts cs) : ∃ start stop step,
    (∀ c ∈ start, isArgument c = true) ∧ (∀ c ∈ stop, isArgument c = true) ∧
      (∀ c ∈ step, isArgument c = true) ∧ trimmed parts = [("start", Text.trimChars start),
        ("stop", Text.trimChars stop), ("step", Text.trimChars step)] ∧
      cs = "range(".toList ++ (start ++ ',' :: (stop ++ ',' :: (step ++ [')']))) := by
  obtain ⟨_, rfl, hstart⟩ := fits_text_append.mp h
  obtain ⟨start, _, _, hstartAll, hstop, rfl, rfl⟩ := fits_argument_append hstart
  obtain ⟨stop, _, _, hstopAll, hstep, hstopParts, rfl⟩ := fits_comma_append hstop
  obtain ⟨step, _, _, hstepAll, hend, hstepParts, rfl⟩ := fits_comma_append hstep
  obtain ⟨rfl, rfl⟩ := fits_text.mp hend
  exact ⟨start, stop, step, hstartAll, hstopAll, hstepAll,
    by rw [trimmed_cons, hstopParts, hstepParts, trimmed_nil], rfl⟩

/-- The same without a step. -/
theorem exists_of_fits_range_stop (h : Fits (specialValue 24) parts cs) : ∃ start stop,
    (∀ c ∈ start, isArgument c = true) ∧ (∀ c ∈ stop, isArgument c = true) ∧
      trimmed parts = [("start", Text.trimChars start), ("stop", Text.trimChars stop)] ∧
      cs = "range(".toList ++ (start ++ ',' :: (stop ++ [')'])) := by
  obtain ⟨_, rfl, hstart⟩ := fits_text_append.mp h
  obtain ⟨start, _, _, hstartAll, hstop, rfl, rfl⟩ := fits_argument_append hstart
  obtain ⟨stop, _, _, hstopAll, hend, hstopParts, rfl⟩ := fits_comma_append hstop
  obtain ⟨rfl, rfl⟩ := fits_text.mp hend
  exact ⟨start, stop, hstartAll, hstopAll, by rw [trimmed_cons, hstopParts, trimmed_nil], rfl⟩

/-- A range as it is written. -/
def rangeText (start stop step : List Char) : List Char :=
  "range(".toList ++ (start ++ ',' :: (' ' :: stop ++ ',' :: (' ' :: step ++ [')'])))

-- Rewriting with the definition itself would make Lean decode the text in it.
theorem rangeText_eq (start stop step : List Char) : rangeText start stop step
    = "range(".toList ++ (start ++ ',' :: (' ' :: stop ++ ',' :: (' ' :: step ++ [')']))) := rfl

theorem written_range {values : List (String × List Char)} {name start stop step : List Char}
    (h : values = [("start", start), ("stop", stop), ("step", step)] ∨
      values = [("start", start), ("stop", stop)] ∧ step = ['1']) :
    Reading.written ⟨Catalog.entry "range", ("variable", name) :: values⟩
      = assigning name (rangeText start stop step) := by
  have hlays : Slot.Lays [⟨"", "variable", "numbers", none⟩, ⟨" = range(", "start", "0", none⟩,
      ⟨", ", "stop", "10", none⟩, ⟨", ", "step", "1", none⟩] ")" (Catalog.entry "range").val := by
    decide +kernel
  rw [written_eq hlays]
  rcases h with rfl | ⟨rfl, rfl⟩ <;> simp [Slot.text, List.lookup_cons, assigning, rangeText_eq]

/-- An argument ends where a character stands that cannot be in one. -/
theorem argument_inj {a b cs ds : List Char} {s t : Char} (ha : ∀ c ∈ a, isArgument c = true)
    (hb : ∀ c ∈ b, isArgument c = true) (hs : isArgument s = false) (ht : isArgument t = false)
    (h : a ++ s :: cs = b ++ t :: ds) : a = b ∧ s = t ∧ cs = ds := by
  obtain ⟨rfl, hrest⟩ := Text.append_inj_of_class ha hb (by rintro c ⟨⟩; exact hs)
    (by rintro c ⟨⟩; exact ht) h
  obtain ⟨rfl, rfl⟩ := List.cons.inj hrest
  exact ⟨rfl, rfl, rfl⟩

theorem isArgument_of_mem_blank_cons {value : List Char} (hvalue : ∀ c ∈ value, isArgument c = true) :
    ∀ c ∈ ' ' :: value, isArgument c = true :=
  List.forall_mem_cons.mpr ⟨by decide, hvalue⟩

section Range

variable {start stop step : List Char} (hstart : ∀ c ∈ start, isArgument c = true)
  (hstop : ∀ c ∈ stop, isArgument c = true) (hstep : ∀ c ∈ step, isArgument c = true)

include hstart hstop

/-- The three arguments that are written are read again, with the blanks before them trimmed. -/
theorem trimmed_of_fits_rangeText (h : Fits (specialValue 23) parts (rangeText start stop step)) :
    trimmed parts = [("start", Text.trimChars start), ("stop", Text.trimChars stop),
      ("step", Text.trimChars step)] := by
  obtain ⟨start', stop', step', hstart', hstop', -, hparts, hsame⟩ := exists_of_fits_range h
  rw [rangeText_eq, List.append_cancel_left_eq] at hsame
  obtain ⟨rfl, -, hstops⟩ := argument_inj hstart hstart' (by decide) (by decide) hsame
  obtain ⟨rfl, -, hsteps⟩ := argument_inj (isArgument_of_mem_blank_cons hstop) hstop' (by decide)
    (by decide) hstops
  obtain rfl := List.append_cancel_right hsteps
  rw [hparts, Text.trimChars_space_cons, Text.trimChars_space_cons]

/-- Two arguments are fewer than are written. -/
theorem not_fits_rangeText : ¬Fits (specialValue 24) parts (rangeText start stop step) := by
  intro h
  obtain ⟨start', stop', hstart', hstop', -, hsame⟩ := exists_of_fits_range_stop h
  rw [rangeText_eq, List.append_cancel_left_eq] at hsame
  obtain ⟨rfl, -, hstops⟩ := argument_inj hstart hstart' (by decide) (by decide) hsame
  obtain ⟨-, hcomma, -⟩ := argument_inj (isArgument_of_mem_blank_cons hstop) hstop' (by decide)
    (by decide) hstops
  exact absurd hcomma (by decide)

end Range

theorem inline_rangeText {start stop step : List Char} (hstart : ∀ c ∈ start, isInline c = true)
    (hstop : ∀ c ∈ stop, isInline c = true) (hstep : ∀ c ∈ step, isInline c = true) :
    ∀ c ∈ rangeText start stop step, isInline c = true := by
  have htexts : ∀ c ∈ "range(".toList ++ [',', ' ', ',', ' ', ')'], isInline c = true := by decide
  intro c hc
  simp only [rangeText_eq, List.mem_append, List.mem_cons, List.not_mem_nil, or_false] at hc htexts
  rcases hc with hc | hc | rfl | (rfl | hc) | rfl | (rfl | hc) | rfl
  · exact htexts c (Or.inl hc)
  · exact hstart c hc
  · decide
  · decide
  · exact hstop c hc
  · decide
  · decide
  · exact hstep c hc
  · decide

/-- A range as it is written has three arguments. -/
theorem stable_of_range {start stop step : List Char} {values : List (String × List Char)}
    (hne : name ≠ []) (hname : ∀ c ∈ name, Text.isWord c = true)
    (hstart : ∀ c ∈ start, isArgument c = true ∧ isInline c = true)
    (hstop : ∀ c ∈ stop, isArgument c = true ∧ isInline c = true)
    (hstep : ∀ c ∈ step, isArgument c = true ∧ isInline c = true)
    (htrim : Text.trimChars start = start ∧ Text.trimChars stop = stop ∧ Text.trimChars step = step)
    (h : values = [("start", start), ("stop", stop), ("step", step)] ∨
      values = [("start", start), ("stop", stop)] ∧ step = ['1']) :
    Reading.Stable ⟨Catalog.entry "range", ("variable", name) :: values⟩ := by
  have hhead : (rangeText start stop step).head? = some 'r' := rfl
  have hvalue : rangeText start stop step
      = "range(".toList ++ (start ++ ',' :: (' ' :: stop ++ ',' :: (' ' :: step))) ++ [')'] := by
    simp [rangeText_eq]
  have htrimValue : Text.trimChars (rangeText start stop step) = rangeText start stop step := by
    refine Text.trimChars_eq_self (Text.flush_cons.mpr (by decide)) ?_
    rw [hvalue]
    simp [Text.Flush]
  refine Reading.stable_of_special (k := 23) (by decide) (by decide) (by decide) rfl hne hname
    htrimValue (inline_rangeText (fun c hc => (hstart c hc).2) (fun c hc => (hstop c hc).2)
      fun c hc => (hstep c hc).2) ?_ (written_range h) hhead fun j found hj hlength hfits => ?_
  · rw [hvalue, List.getLast?_concat]
    decide
  · -- The rule for two arguments does not read three.
    have hcases : j = 23 ∨ j = 24 := by simpa [specialRules] using hj
    rcases hcases with rfl | rfl
    · rw [trimmed_of_fits_rangeText (fun c hc => (hstart c hc).1) (fun c hc => (hstop c hc).1) hfits,
        htrim.1, htrim.2.1, htrim.2.2]
      exact written_range (Or.inl rfl)
    · exact absurd hfits (not_fits_rangeText (fun c hc => (hstart c hc).1) fun c hc => (hstop c hc).1)

/-- What is trimmed from an argument in a line is an argument in one line. -/
theorem argument_trimChars {value : List Char} (hline : ∀ c ∈ line, isInline c = true)
    (hvalue : ∀ c ∈ value, isArgument c = true) (hmem : ∀ c ∈ value, c ∈ line) :
    ∀ c ∈ Text.trimChars value, isArgument c = true ∧ isInline c = true :=
  fun c hc =>
    ⟨hvalue c (Text.mem_of_mem_trimChars hc), hline c (hmem c (Text.mem_of_mem_trimChars hc))⟩

theorem stable_range (hline : ∀ c ∈ line, isInline c = true)
    (h : rules[23].reading? line = some r) : r.Stable := by
  obtain ⟨name, found, value, hname, hword, hfound, hmem, rfl⟩ :=
    exists_of_reads_special (by decide) (by decide) (by decide) h
  obtain ⟨start, stop, step, hstart, hstop, hstep, hparts, rfl⟩ := exists_of_fits_range hfound
  rw [hparts]
  exact stable_of_range hname hword (argument_trimChars hline hstart fun c hc => hmem c (by simp [hc]))
    (argument_trimChars hline hstop fun c hc => hmem c (by simp [hc]))
    (argument_trimChars hline hstep fun c hc => hmem c (by simp [hc]))
    ⟨Text.trimChars_trimChars _, Text.trimChars_trimChars _, Text.trimChars_trimChars _⟩ (Or.inl rfl)

theorem stable_range_stop (hline : ∀ c ∈ line, isInline c = true)
    (h : rules[24].reading? line = some r) : r.Stable := by
  obtain ⟨name, found, value, hname, hword, hfound, hmem, rfl⟩ :=
    exists_of_reads_special (by decide) (by decide) (by decide) h
  obtain ⟨start, stop, hstart, hstop, hparts, rfl⟩ := exists_of_fits_range_stop hfound
  rw [hparts]
  exact stable_of_range hname hword (argument_trimChars hline hstart fun c hc => hmem c (by simp [hc]))
    (argument_trimChars hline hstop fun c hc => hmem c (by simp [hc])) (by decide)
    ⟨Text.trimChars_trimChars _, Text.trimChars_trimChars _, by decide⟩ (Or.inr ⟨rfl, rfl⟩)

end Special

/-! ## Lines with a dot -/

section Dotted

variable {object name value : List Char}

theorem exists_of_fits_dotted {target : String} {ps : Pattern}
    (h : Fits (identifier target ++ (text "." ++ ps)) parts cs) : ∃ object found rest, object ≠ [] ∧
      (∀ c ∈ object, Text.isWord c = true) ∧ Fits ps found rest ∧ parts = (target, object) :: found ∧
      cs = object ++ '.' :: rest := by
  obtain ⟨_, object, found, _, hobject, rfl, rfl, htail⟩ := fits_parameter_append.mp h
  obtain ⟨rfl, hne, hword⟩ := fits_run.mp hobject
  obtain ⟨rest, rfl, hrest⟩ := fits_text_append.mp htail
  exact ⟨object, found, rest, hne, hword, hrest, rfl, rfl⟩

/-- A line with a dot comes back if what is written after the dot is divided in one way, up to blanks. -/
theorem Reading.stable_of_dotted (hk : k = 28 ∨ k = 30) (hlength : k < rules.length)
    (hblock : r.block = rules[k].block) {tail : Pattern}
    (hrule : rules[k].pattern = identifier "object" ++ (text "." ++ tail)) (hne : object ≠ [])
    (hobject : ∀ c ∈ object, Text.isWord c = true) {rest : List Char}
    (hwritten : r.written = object ++ '.' :: rest)
    (hrest : rest ≠ []) (hend : Text.Flush rest.reverse) (hfits : Fits tail parts rest)
    (hattribute : k = 30 → ∀ found, ¬Fits (assigned "name" ++ assignedValue "value") found rest)
    (hagain : ∀ found, Fits tail found rest →
      Reading.written ⟨rules[k].block, ("object", object) :: trimmed found⟩ = object ++ '.' :: rest) :
    r.Stable := by
  have hdot : Text.isWord '.' = false := by decide
  have hobjectTrim : Text.trimChars object = object := Text.trimChars_of_isWord hobject
  have hparts : rules[k].pattern.Fits (("object", object) :: parts) r.written := by
    rw [hwritten, hrule, fits_dotted hne hobject hdot]
    exact ⟨rfl, parts, hfits, rfl⟩
  refine stable_of_rule hlength ?_ ?_ (fun j hbound hj => ?_) hparts fun again hreading => ?_
  · rw [hwritten]
    exact (Text.flush_of_forall fun c hc => Text.isBlank_eq_false_of_isWord (hobject c hc)).append hne _
  · rwa [hwritten, Text.flush_reverse_append (by simp), Text.flush_reverse_cons hrest]
  · cases hreading : rules[j].reading? r.written with
    | none => rfl
    | some again =>
        obtain ⟨found, hfound, -⟩ := Rule.exists_fits hreading
        rw [hwritten] at hfound
        by_cases hj' : j = 28
        · subst hj'
          have hpattern : rules[28].pattern
              = identifier "object" ++ (text "." ++ (assigned "name" ++ assignedValue "value")) := rfl
          rw [hpattern, fits_dotted hne hobject hdot] at hfound
          obtain ⟨-, found, hfound, -⟩ := hfound
          exact absurd hfound (hattribute (by omega) found)
        · exact absurd hfound (not_fits_of_dot hne hobject _ hj' (by omega))
  · obtain ⟨found, hfound, rfl⟩ := Rule.exists_fits hreading
    rw [hwritten, hrule, fits_dotted hne hobject hdot] at hfound
    obtain ⟨-, found, hfound, rfl⟩ := hfound
    rw [trimmed_cons, hobjectTrim]
    exact ⟨(hagain found hfound).trans hwritten.symm, fun h => by rwa [← hblock], by rw [hblock]⟩

theorem written_attribute (object name value : List Char) :
    Reading.written ⟨Catalog.entry "attribute", [("object", object), ("name", name), ("value", value)]⟩
      = object ++ '.' :: assigning name value := by
  have hlays : Slot.Lays [⟨"", "object", "self", none⟩, ⟨".", "name", "attribute", none⟩,
      ⟨" = ", "value", "None", none⟩] "" (Catalog.entry "attribute").val := by decide +kernel
  rw [written_eq hlays]
  simp [Slot.text, List.lookup_cons, assigning]

theorem stable_attribute (hline : Text.Flush line.reverse) (hinline : ∀ c ∈ line, isInline c = true)
    (h : rules[28].reading? line = some r) : r.Stable := by
  obtain ⟨parts, hfits, rfl⟩ := Rule.exists_fits h
  have hrule : rules[28].pattern
      = identifier "object" ++ (text "." ++ (assigned "name" ++ assignedValue "value")) := rfl
  rw [hrule] at hfits
  obtain ⟨object, found, rest, hne, hobject, hfound, rfl, rfl⟩ := exists_of_fits_dotted hfits
  have hrest : rest ≠ [] := by
    rintro rfl
    obtain ⟨_, _, _, _, _, -, -, -, -, -, -, hsame⟩ := fits_assigned.mp hfound
    simp at hsame
  rw [Text.flush_reverse_append (by simp), Text.flush_reverse_cons hrest] at hline
  obtain ⟨name, before, after, value, hname, hword, hbefore, hafter, hvalue, htrim, hvalues, rfl⟩ :=
    exists_of_fits_variable hline hfound
  have hobjectTrim : Text.trimChars object = object := Text.trimChars_of_isWord hobject
  have hinlineValue : ∀ c ∈ value, isInline c = true := fun c hc => hinline c (by simp [hc])
  rw [trimmed_cons, hvalues, hobjectTrim]
  refine Reading.stable_of_dotted (Or.inl rfl) (by decide) rfl hrule hne hobject
    (written_attribute object name value) (by simp [assigning]) ?_
    (fits_assigning hname hword hinlineValue) (by simp) fun found hfound => ?_
  · rw [flush_reverse_assigning hvalue]
    exact htrim ▸ Text.flush_reverse_trimChars value
  · rw [trimmed_of_fits_assigning hword htrim hfound]
    exact written_attribute object name value

/-- What follows the dot of a call. -/
def callTail : Pattern :=
  identifier "method" ++ enclosed "(" "args" [.many isInline] ")"

theorem fits_callTail : Fits callTail parts cs ↔ ∃ method args, method ≠ [] ∧
    (∀ c ∈ method, Text.isWord c = true) ∧ (∀ c ∈ args, isInline c = true) ∧
      parts = [("method", method), ("args", args)] ∧ cs = method ++ '(' :: (args ++ [')']) := by
  simp only [callTail, identifier, fits_parameter_append, fits_run, fits_enclosed, fits_many]
  constructor
  · rintro ⟨_, method, _, _, ⟨rfl, hne, hword⟩, rfl, rfl, _, args, ⟨rfl, hargs⟩, rfl, rfl⟩
    exact ⟨method, args, hne, hword, hargs, rfl, rfl⟩
  · rintro ⟨method, args, hne, hword, hargs, rfl, rfl⟩
    exact ⟨[], method, _, _, ⟨rfl, hne, hword⟩, rfl, rfl, [], args, ⟨rfl, hargs⟩, rfl, rfl⟩

theorem written_call (object method args : List Char) :
    Reading.written ⟨Catalog.entry "method_call", [("object", object), ("method", method), ("args", args)]⟩
      = object ++ '.' :: (method ++ '(' :: (args ++ [')'])) := by
  have hlays : Slot.Lays [⟨"", "object", "obj", none⟩, ⟨".", "method", "method_name", none⟩,
      ⟨"(", "args", "", none⟩] ")" (Catalog.entry "method_call").val := by decide +kernel
  rw [written_eq hlays]
  simp [Slot.text, List.lookup_cons]

theorem stable_call (h : rules[30].reading? line = some r) : r.Stable := by
  obtain ⟨parts, hfits, rfl⟩ := Rule.exists_fits h
  have hrule : rules[30].pattern = identifier "object" ++ (text "." ++ callTail) := rfl
  rw [hrule] at hfits
  obtain ⟨object, found, rest, hne, hobject, hfound, rfl, rfl⟩ := exists_of_fits_dotted hfits
  obtain ⟨method, args, hmethod, hword, hargs, rfl, rfl⟩ := fits_callTail.mp hfound
  have hobjectTrim : Text.trimChars object = object := Text.trimChars_of_isWord hobject
  have hmethodTrim : Text.trimChars method = method := Text.trimChars_of_isWord hword
  rw [trimmed_cons, trimmed_cons, trimmed_cons, trimmed_nil, hobjectTrim, hmethodTrim]
  refine Reading.stable_of_dotted (Or.inr rfl) (by decide) rfl hrule hne hobject
    (written_call object method (Text.trimChars args)) (by simp) (by simp [Text.Flush])
    (fits_callTail.mpr ⟨method, Text.trimChars args, hmethod, hword,
      fun c hc => hargs c (Text.mem_of_mem_trimChars hc), rfl, rfl⟩)
    (fun _ found => not_fits_assigned hword (by decide) (by decide) (by decide)) fun found hfound => ?_
  obtain ⟨method', args', -, hword', -, rfl, hsame⟩ := fits_callTail.mp hfound
  obtain ⟨rfl, hrest⟩ := Text.append_inj_of_class hword hword' (by rintro c ⟨⟩; decide)
    (by rintro c ⟨⟩; decide) hsame
  obtain rfl := List.append_cancel_right (List.cons.inj hrest).2
  rw [trimmed_cons, trimmed_cons, trimmed_nil, hmethodTrim, Text.trimChars_trimChars]
  exact written_call object method _

end Dotted

end Blockwork.Source
