import Blockwork.Proofs.Source.Written

/-!
# `Blockwork.Proofs.Source.Keywords`: statements that begin with a keyword

A line that begins with a keyword and a blank is not taken by a rule for another keyword. What is
written for it can be divided among the pieces of its own rule in one way only, since the values are
trimmed and the names end where other characters begin.

## Contents
- `Reading.stable_of_parts`: one way of dividing the written line is enough.
- `Rule.stable_suite`, `stable_bare`: a keyword with a value and a colon, and a keyword alone.
- `Reading.stable_of_name`, with `stable_class`, `stable_function` and the two imports.
- `stable_raise` and `stable_return`.
-/

namespace Blockwork.Source

open Pattern

variable {k : Nat} {line cs : List Char} {r : Reading} {parts : List (String × List Char)}

namespace Reading

/-- It is enough that the line is divided in one way, and that the parts are written as they were. -/
theorem stable_of_parts (parts : List (String × List Char)) (hk : k < rules.length)
    (hblock : r.block = rules[k].block)
    (hflush : Text.Flush r.written) (hend : Text.Flush r.written.reverse)
    (hearlier : ∀ j (hlength : j < rules.length), j < k → rules[j].reading? r.written = none)
    (hfits : rules[k].pattern.Fits parts r.written)
    (hread : ∀ values, rules[k].pattern.parts? r.written = some values → values = trimmed parts)
    (hwritten : Reading.written ⟨rules[k].block, trimmed parts⟩ = r.written) : r.Stable := by
  refine stable_of_rule hk hflush hend hearlier hfits fun again hagain => ?_
  obtain ⟨values, hvalues, rfl⟩ := Option.map_eq_some_iff.mp hagain
  rw [hread values hvalues]
  exact ⟨hwritten, fun h => by rwa [← hblock], by rw [hblock]⟩

end Reading

/-- A division that is the only one is the one that is found. -/
theorem Pattern.eq_trimmed_of_parts? {ps : Pattern} (hunique : ∀ found, Fits ps found cs → found = parts)
    (values : List (String × List Char)) (h : ps.parts? cs = some values) : values = trimmed parts := by
  obtain ⟨found, hfits, rfl⟩ := exists_fits h
  rw [hunique found hfits]

/-- Where one blank was written after a keyword, it is all that is taken as blanks. -/
theorem eq_of_blanks_append {lead blanks rest : List Char} (hne : blanks ≠ [])
    (hblanks : ∀ c ∈ blanks, Text.isBlank c = true) (hflush : Text.Flush cs)
    (h : lead ++ ' ' :: cs = lead ++ (blanks ++ rest)) : rest = cs := by
  rw [List.append_cancel_left_eq] at h
  exact (Text.eq_singleton_of_blanks_append hne hblanks hflush h.symm).2

/-! ## A keyword and a suite -/

theorem Pattern.fits_suite {keyword name : String} : Fits (suite keyword name) parts cs ↔
    ∃ blanks value, blanks ≠ [] ∧ (∀ c ∈ blanks, Text.isBlank c = true) ∧ value ≠ [] ∧
      (∀ c ∈ value, isInline c = true) ∧ parts = [(name, value)] ∧
      cs = keyword.toList ++ (blanks ++ (value ++ [':'])) := by
  simp only [suite, something, List.append_assoc, fits_text_append, fits_space_append,
    fits_parameter_append, fits_run, fits_text]
  constructor
  · rintro ⟨_, rfl, blanks, _, hne, hblanks, rfl, _, value, _, _, ⟨rfl, hvalue, hinline⟩, rfl, rfl,
      rfl, rfl⟩
    exact ⟨blanks, value, hne, hblanks, hvalue, hinline, rfl, rfl⟩
  · rintro ⟨blanks, value, hne, hblanks, hvalue, hinline, rfl, rfl⟩
    exact ⟨_, rfl, blanks, _, hne, hblanks, rfl, _, value, _, _, ⟨rfl, hvalue, hinline⟩, rfl, rfl,
      rfl, rfl⟩

theorem Pattern.fits_suite_written {keyword name : String} {value : List Char} (hne : value ≠ [])
    (hinline : ∀ c ∈ value, isInline c = true) (hflush : Text.Flush value) :
    Fits (suite keyword name) parts (keyword.toList ++ ' ' :: (value ++ [':'])) ↔
      parts = [(name, value)] := by
  rw [fits_suite]
  constructor
  · rintro ⟨blanks, found, hblanks, hall, -, -, rfl, hsame⟩
    rw [List.append_cancel_right (eq_of_blanks_append hblanks hall (hflush.append hne _) hsame)]
  · rintro rfl
    exact ⟨[' '], value, List.cons_ne_nil _ _, by decide, hne, hinline, rfl, rfl⟩

/-- A keyword, a value and a colon. -/
theorem Rule.stable_suite (hk : k < rules.length) (keyword name default : String)
    (hrule : rules[k].pattern = suite keyword name)
    (hlays : Slot.Lays [⟨keyword ++ " ", name, default, none⟩] ":" rules[k].block.val)
    (hflush : Text.Flush keyword.toList) (hkeyword : keyword.toList ≠ [])
    (h : rules[k].reading? line = some r) (hvalues : ∀ v ∈ r.values, v.2 ≠ [])
    (hearlier : ∀ blanks part, blanks ≠ [] → (∀ c ∈ blanks, Text.isBlank c = true) →
      line = keyword.toList ++ (blanks ++ (part ++ [':'])) → ∀ j (hlength : j < rules.length), j < k →
        rules[j].reading? (keyword.toList ++ ' ' :: (Text.trimChars part ++ [':'])) = none) : r.Stable := by
  obtain ⟨parts, hfits, rfl⟩ := exists_fits h
  rw [hrule] at hfits
  obtain ⟨blanks, value, hblanks, hall, -, hinline, rfl, hline⟩ := fits_suite.mp hfits
  have hne : Text.trimChars value ≠ [] := hvalues _ List.mem_cons_self
  have hwritten : Reading.written ⟨rules[k].block, trimmed [(name, value)]⟩
      = keyword.toList ++ ' ' :: (Text.trimChars value ++ [':']) := by
    have hone := written_one hlays (Text.trimChars value)
    rwa [String.toList_append, List.append_assoc] at hone
  -- What is written is divided in one way only, into the keyword and the value that was trimmed.
  have hsuite : ∀ parts, rules[k].pattern.Fits parts
      (Reading.written ⟨rules[k].block, trimmed [(name, value)]⟩) ↔ parts = [(name, Text.trimChars value)] := by
    intro parts
    rw [hwritten, hrule]
    exact fits_suite_written hne (fun c hc => hinline c (Text.mem_of_mem_trimChars hc))
      (Text.flush_trimChars value)
  refine Reading.stable_of_parts [(name, Text.trimChars value)] hk rfl ?_ ?_ (fun j hlength hj => ?_)
    ((hsuite _).mpr rfl) (eq_trimmed_of_parts? fun parts => (hsuite parts).mp) ?_
  · rw [hwritten]
    exact hflush.append hkeyword _
  · rw [hwritten]
    simp [Text.Flush]
  · rw [hwritten]
    exact hearlier blanks value hblanks hall hline j hlength hj
  · simp only [trimmed, List.map_cons, List.map_nil, Text.trimChars_trimChars]

/-! ## A keyword alone -/

instance (r again : Reading) : Decidable (r.Kept again) :=
  decidable_of_iff
    (again.written = r.written ∧
      (r.block.val.canOwnChildren = true → again.block.val.canOwnChildren = true) ∧
      again.block.val.kind.bucket = r.block.val.kind.bucket)
    ⟨fun h => ⟨h.1, h.2.1, h.2.2⟩, fun h => ⟨h.written, h.opens, h.group⟩⟩

instance (r : Reading) : Decidable r.Stable :=
  decidable_of_iff
    (r.written.head?.any Text.isBlank = false ∧
      (recognise? (Text.trimChars r.written)).any (fun again => decide (r.Kept again)) = true)
    (by
      rw [Option.any_eq_false, Option.any_eq_true]
      constructor
      · rintro ⟨hflush, again, hagain, hkept⟩
        exact ⟨fun c hc => by simpa using hflush c hc, again, hagain, of_decide_eq_true hkept⟩
      · rintro ⟨hflush, again, hagain, hkept⟩
        exact ⟨fun c hc => by simpa using hflush c hc, again, hagain, decide_eq_true hkept⟩)

theorem stable_bare : ∀ id ∈
      ["else", "case_default", "try", "except", "finally", "break", "continue", "return"],
    ∀ e ∈ Catalog.lookup id, Reading.Stable ⟨e, []⟩ := by
  decide +kernel

/-! ## A keyword and a name -/

namespace Pattern

variable {p : Char → Bool} {keyword name : String} {tail : Pattern}

theorem fits_name :
    Fits (text keyword ++ (space ++ (parameter name (run p) ++ tail))) parts cs ↔
      ∃ blanks value after rest, blanks ≠ [] ∧ (∀ c ∈ blanks, Text.isBlank c = true) ∧ value ≠ [] ∧
        (∀ c ∈ value, p c = true) ∧ Fits tail after rest ∧ parts = (name, value) :: after ∧
        cs = keyword.toList ++ (blanks ++ (value ++ rest)) := by
  simp only [fits_text_append, fits_space_append, fits_parameter_append, fits_run]
  constructor
  · rintro ⟨_, rfl, blanks, _, hne, hblanks, rfl, _, value, after, rest, ⟨rfl, hvalue, hall⟩, rfl, rfl,
      htail⟩
    exact ⟨blanks, value, after, rest, hne, hblanks, hvalue, hall, htail, rfl, rfl⟩
  · rintro ⟨blanks, value, after, rest, hne, hblanks, hvalue, hall, htail, rfl, rfl⟩
    exact ⟨_, rfl, blanks, _, hne, hblanks, rfl, _, value, after, rest, ⟨rfl, hvalue, hall⟩, rfl, rfl,
      htail⟩

/-- The name is what comes before the first other character, if the rest cannot begin with such a
    character as names are made of. -/
theorem fits_name_written {value rest : List Char} (hp : ∀ c, p c = true → Text.isBlank c = false)
    (htail : ∀ after rest, Fits tail after rest → ∀ c ∈ rest.head?, p c = false) (hne : value ≠ [])
    (hvalue : ∀ c ∈ value, p c = true) (hrest : ∀ c ∈ rest.head?, p c = false) :
    Fits (text keyword ++ (space ++ (parameter name (run p) ++ tail))) parts
        (keyword.toList ++ ' ' :: (value ++ rest)) ↔
      ∃ after, Fits tail after rest ∧ parts = (name, value) :: after := by
  have hflush : Text.Flush value := Text.flush_of_forall fun c hc => hp c (hvalue c hc)
  rw [fits_name]
  constructor
  · rintro ⟨blanks, found, after, rest', hblanks, hall, -, hfound, hafter, rfl, hsame⟩
    have hsame := eq_of_blanks_append hblanks hall (hflush.append hne _) hsame
    obtain ⟨rfl, rfl⟩ := Text.append_inj_of_class hfound hvalue (htail _ _ hafter) hrest hsame
    exact ⟨after, hafter, rfl⟩
  · rintro ⟨after, hafter, rfl⟩
    exact ⟨[' '], value, after, rest, List.cons_ne_nil _ _, by decide, hne, hvalue, hafter, rfl, rfl⟩

end Pattern

/-! ## Optional parts that are shaped -/

/-- A value between two texts, or nothing if there is none. -/
def wrapped (before after : String) (value : List Char) : List Char :=
  if value = [] then [] else before.toList ++ (value ++ after.toList)

theorem toList_wrapUnlessBlank {value : List Char} (h : Text.trimChars value = value)
    (before after : String) :
    (Formatter.wrapUnlessBlank before after (String.ofList value)).toList = wrapped before after value := by
  have htrim : (Text.trim (String.ofList value)).toList = value := by
    rw [Text.toList_trim, String.toList_ofList, h]
  rw [Formatter.wrapUnlessBlank, wrapped]
  by_cases hnil : value = []
  · rw [if_pos hnil, if_pos, String.toList_empty]
    rw [String.isEmpty_iff, ← String.toList_inj, htrim, hnil]
    rfl
  · rw [if_neg hnil, if_neg, String.toList_append, String.toList_append, htrim, List.append_assoc]
    rw [String.isEmpty_iff, ← String.toList_inj, htrim]
    exact hnil

theorem apply_asClause : Formatter.asClause.apply = Formatter.wrapUnlessBlank " as " "" := rfl

theorem apply_baseClass : Formatter.baseClass.apply = Formatter.wrapUnlessBlank "(" ")" := rfl

/-- The line of a parameter and of one behind it that is shaped. -/
theorem written_shaped {e : Entry} {lead name default other before behind ending : String}
    {formatter : Formatter} {value shaped : List Char} {after : List (String × List Char)}
    (hlays : Slot.Lays [⟨lead, name, default, none⟩, ⟨"", other, "", some formatter⟩] ending e.val)
    (hformatter : formatter.apply = Formatter.wrapUnlessBlank before behind) (hne : name ≠ other)
    (hshaped : Text.trimChars shaped = shaped)
    (hafter : after = [(other, shaped)] ∨ after = [] ∧ shaped = []) :
    Reading.written ⟨e, (name, value) :: after⟩
      = lead.toList ++ (value ++ (wrapped before behind shaped ++ ending.toList)) := by
  have hshape := toList_wrapUnlessBlank hshaped before behind
  have hfirst : (name == other) = false := beq_eq_false_iff_ne.mpr hne
  have hother : (other == name) = false := beq_eq_false_iff_ne.mpr hne.symm
  rw [written_eq hlays]
  rcases hafter with rfl | ⟨rfl, rfl⟩
  · simp [Slot.text, List.lookup_cons, hformatter, hfirst, hshape]
  · simp [Slot.text, List.lookup_cons, hformatter, hother, ← hshape]

variable {p : Char → Bool} {keyword name : String} {tail : Pattern}

/-- A keyword, a name, and what can follow the name in one way only. -/
theorem Reading.stable_of_name {value rest : List Char} {after : List (String × List Char)}
    (hk : k < rules.length) (hblock : r.block = rules[k].block)
    (hrule : rules[k].pattern = text keyword ++ (space ++ (parameter name (run p) ++ tail)))
    (hp : ∀ c, p c = true → Text.isBlank c = false)
    (htail : ∀ after rest, Fits tail after rest → ∀ c ∈ rest.head?, p c = false)
    (hclash : ∀ rule ∈ rules.take k, rule.pattern.clashes (keyword.toList ++ [' ']) = true)
    (hkeyword : Text.Flush (keyword.toList ++ [' '])) (hne : value ≠ [])
    (hvalue : ∀ c ∈ value, p c = true)
    (hwritten : r.written = keyword.toList ++ ' ' :: (value ++ rest))
    (hend : Text.Flush r.written.reverse)
    (hunique : ∀ found, Fits tail found rest ↔ found = after)
    (hagain : Reading.written ⟨rules[k].block, trimmed ((name, value) :: after)⟩ = r.written) :
    r.Stable := by
  -- The name ends where it did, since nothing that may follow begins as names go on.
  have hrest : ∀ c ∈ rest.head?, p c = false := htail after rest ((hunique after).mpr rfl)
  have hparts : ∀ parts, rules[k].pattern.Fits parts r.written ↔ parts = (name, value) :: after := by
    intro parts
    rw [hwritten, hrule, fits_name_written hp htail hne hvalue hrest]
    constructor
    · rintro ⟨found, hfound, rfl⟩
      rw [(hunique found).mp hfound]
    · rintro rfl
      exact ⟨after, (hunique after).mpr rfl, rfl⟩
  have hlead : r.written = (keyword.toList ++ [' ']) ++ (value ++ rest) := by
    rw [hwritten, List.append_cons]
  refine Reading.stable_of_parts ((name, value) :: after) hk hblock ?_ hend (fun j hlength hj => ?_)
    ((hparts _).mpr rfl)
    (eq_trimmed_of_parts? fun parts => (hparts parts).mp) hagain
  · rw [hlead]
    exact hkeyword.append (by simp) _
  · rw [hlead]
    exact reading?_eq_none_of_clash _ hclash hj hlength _

/-! ## Classes -/

/-- What may follow the name of a class. -/
def classTail : Pattern :=
  perhaps (text "(" ++ (parameter "parent" [.many (isNone [')'])] ++ text ")")) ++ (gap ++ text ":")

theorem rule_class :
    rules[2] = ⟨Catalog.entry "class", text "class" ++ (space ++ (identifier "name" ++ classTail))⟩ := rfl

theorem fits_classTail : Fits classTail parts cs ↔
    (∃ parent blanks, (∀ c ∈ parent, isNone [')'] c = true) ∧ (∀ c ∈ blanks, Text.isBlank c = true) ∧
      parts = [("parent", parent)] ∧ cs = '(' :: (parent ++ ')' :: (blanks ++ [':']))) ∨
    ∃ blanks, (∀ c ∈ blanks, Text.isBlank c = true) ∧ parts = [] ∧ cs = blanks ++ [':'] := by
  simp only [classTail, fits_perhaps_append, List.append_assoc, fits_text_append, fits_parameter_append,
    fits_many, fits_gap_append, fits_text]
  refine or_congr ⟨?_, ?_⟩ ⟨?_, ?_⟩
  · rintro ⟨_, rfl, _, parent, _, _, ⟨rfl, hparent⟩, rfl, rfl, _, rfl, blanks, _, hblanks, rfl, rfl, rfl⟩
    exact ⟨parent, blanks, hparent, hblanks, rfl, rfl⟩
  · rintro ⟨parent, blanks, hparent, hblanks, rfl, rfl⟩
    exact ⟨_, rfl, _, parent, _, _, ⟨rfl, hparent⟩, rfl, rfl, _, rfl, blanks, _, hblanks, rfl, rfl, rfl⟩
  · rintro ⟨blanks, _, hblanks, rfl, rfl, rfl⟩
    exact ⟨blanks, hblanks, rfl, rfl⟩
  · rintro ⟨blanks, hblanks, rfl, rfl⟩
    exact ⟨blanks, _, hblanks, rfl, rfl, rfl⟩

theorem head_classTail (after : List (String × List Char)) (rest : List Char)
    (h : Fits classTail after rest) :
    ∀ c ∈ rest.head?, Text.isWord c = false := by
  rcases fits_classTail.mp h with ⟨parent, blanks, -, -, -, rfl⟩ | ⟨blanks, hblanks, -, rfl⟩
  · rintro c ⟨⟩
    decide
  · refine Text.head_blanks_append (fun c => Text.isWord_eq_false_of_isBlank) hblanks ?_
    rintro c ⟨⟩
    decide

/-- The value of an optional part, if there is one. -/
def optionalPart (name : String) (value : List Char) : List (String × List Char) :=
  if value = [] then [] else [(name, value)]

theorem fits_classTail_written {parent : List Char} (hparent : ∀ c ∈ parent, isNone [')'] c = true) :
    Fits classTail parts (wrapped "(" ")" parent ++ [':']) ↔ parts = optionalPart "parent" parent := by
  rw [fits_classTail, wrapped, optionalPart]
  by_cases hnil : parent = []
  · rw [if_pos hnil, if_pos hnil, List.nil_append]
    constructor
    · rintro (⟨found, blanks, -, -, -, hsame⟩ | ⟨blanks, -, rfl, -⟩)
      · cases hsame
      · rfl
    · rintro rfl
      exact Or.inr ⟨[], by simp, rfl, rfl⟩
  · have htext : "(".toList ++ (parent ++ ")".toList) ++ [':'] = '(' :: (parent ++ ')' :: [':']) := by simp
    rw [if_neg hnil, if_neg hnil, htext]
    constructor
    · rintro (⟨found, blanks, hfound, -, rfl, hsame⟩ | ⟨blanks, hblanks, -, hsame⟩)
      · obtain ⟨rfl, -⟩ := Text.append_inj_of_class hparent hfound (by rintro c ⟨⟩; decide)
          (by rintro c ⟨⟩; decide) (List.cons.inj hsame).2
        rfl
      · have hopen : Text.Flush ('(' :: (parent ++ ')' :: [':'])) := Text.flush_cons.mpr (by decide)
        obtain ⟨rfl, hsame⟩ := Text.eq_nil_of_blanks_append hblanks hopen hsame.symm
        cases hsame
    · rintro rfl
      exact Or.inl ⟨parent, [], hparent, by simp, rfl, rfl⟩

theorem written_class {name parent : List Char} {after : List (String × List Char)}
    (hparent : Text.trimChars parent = parent)
    (hafter : after = [("parent", parent)] ∨ after = [] ∧ parent = []) :
    Reading.written ⟨Catalog.entry "class", ("name", name) :: after⟩
      = "class".toList ++ ' ' :: (name ++ (wrapped "(" ")" parent ++ [':'])) := by
  have hlays : Slot.Lays [⟨"class ", "name", "MyClass", none⟩, ⟨"", "parent", "", some .baseClass⟩] ":"
      (Catalog.entry "class").val := by decide +kernel
  exact written_shaped hlays apply_baseClass (by decide) hparent hafter

theorem trimmed_optionalPart {name : String} {value : List Char} (h : Text.trimChars value = value) :
    trimmed (optionalPart name value) = optionalPart name value := by
  unfold optionalPart
  split
  · rfl
  · rw [trimmed_cons, h, trimmed_nil]

theorem optionalPart_cases (name : String) (value : List Char) :
    optionalPart name value = [(name, value)] ∨ optionalPart name value = [] ∧ value = [] := by
  unfold optionalPart
  split
  · rename_i h
    exact Or.inr ⟨rfl, h⟩
  · exact Or.inl rfl

theorem stable_class (h : rules[2].reading? line = some r) : r.Stable := by
  obtain ⟨parts, hfits, rfl⟩ := Rule.exists_fits h
  rw [rule_class, identifier, fits_name] at hfits
  obtain ⟨blanks, name, after, rest, -, -, hne, hname, htail, rfl, rfl⟩ := hfits
  -- A parent of blanks only is written as none.
  obtain ⟨parent, hclass, htrim, hafter⟩ : ∃ parent : List Char, (∀ c ∈ parent, isNone [')'] c = true) ∧
      Text.trimChars parent = parent ∧
      (trimmed after = [("parent", parent)] ∨ trimmed after = [] ∧ parent = []) := by
    rcases fits_classTail.mp htail with ⟨parent, _, hparent, -, rfl, -⟩ | ⟨_, -, rfl, -⟩
    · exact ⟨Text.trimChars parent, fun c hc => hparent c (Text.mem_of_mem_trimChars hc),
        Text.trimChars_trimChars parent, Or.inl rfl⟩
    · exact ⟨[], by simp, rfl, Or.inr ⟨rfl, rfl⟩⟩
  have hnameTrim : Text.trimChars name = name := Text.trimChars_of_isWord hname
  have hwritten : Reading.written ⟨rules[2].block, trimmed (("name", name) :: after)⟩
      = "class".toList ++ ' ' :: (name ++ (wrapped "(" ")" parent ++ [':'])) := by
    rw [trimmed_cons, hnameTrim]
    exact written_class htrim hafter
  refine Reading.stable_of_name (by decide) rfl (congrArg Rule.pattern rule_class)
    (fun c => Text.isBlank_eq_false_of_isWord) head_classTail (by decide)
    (Text.flush_cons.mpr (by decide)) hne hname hwritten ?_
    (fun found => fits_classTail_written hclass) ?_
  · rw [hwritten]
    simp [Text.Flush]
  · rw [hwritten, trimmed_cons, hnameTrim, trimmed_optionalPart htrim]
    exact written_class htrim (optionalPart_cases _ _)

/-! ## Functions -/

/-- What follows the name of a function. -/
def functionTail : Pattern :=
  gap ++ (text "(" ++ (parameter "params" [.many (isNone [')'])] ++ (text ")" ++ (gap ++
    (perhaps (text "->" ++ (gap ++ run (isNone [':']))) ++ text ":")))))

theorem rule_function :
    rules[3] = ⟨Catalog.entry "function",
      text "def" ++ (space ++ (identifier "name" ++ functionTail))⟩ := rfl

theorem exists_of_fits_functionTail (h : Fits functionTail parts cs) : ∃ blanks params rest,
    (∀ c ∈ blanks, Text.isBlank c = true) ∧ (∀ c ∈ params, isNone [')'] c = true) ∧
      parts = [("params", params)] ∧ cs = blanks ++ '(' :: (params ++ ')' :: rest) := by
  simp only [functionTail, fits_gap_append, fits_text_append, fits_parameter_append, fits_many,
    fits_perhaps_append, fits_run_append, List.append_assoc, fits_text] at h
  obtain ⟨blanks, _, hblanks, rfl, _, rfl, _, params, after, _, ⟨rfl, hparams⟩, rfl, rfl, rest, rfl, h⟩ := h
  refine ⟨blanks, params, rest, hblanks, hparams, ?_, rfl⟩
  obtain ⟨_, _, -, -, ⟨_, -, _, _, -, -, _, _, -, -, -, rfl, -⟩ | ⟨rfl, -⟩⟩ := h
  · rfl
  · rfl

theorem head_functionTail (after : List (String × List Char)) (rest : List Char)
    (h : Fits functionTail after rest) : ∀ c ∈ rest.head?, Text.isWord c = false := by
  obtain ⟨blanks, params, rest, hblanks, -, -, rfl⟩ := exists_of_fits_functionTail h
  refine Text.head_blanks_append (fun c => Text.isWord_eq_false_of_isBlank) hblanks ?_
  rintro c ⟨⟩
  decide

theorem fits_functionTail_written {params : List Char} (hparams : ∀ c ∈ params, isNone [')'] c = true) :
    Fits functionTail parts ('(' :: (params ++ ')' :: [':'])) ↔ parts = [("params", params)] := by
  constructor
  · intro h
    obtain ⟨blanks, found, rest, hblanks, hfound, rfl, hsame⟩ := exists_of_fits_functionTail h
    obtain ⟨rfl, hsame⟩ :=
      Text.eq_nil_of_blanks_append hblanks (Text.flush_cons.mpr (by decide)) hsame.symm
    have hparams' : params ++ ')' :: [':'] = found ++ ')' :: rest := (List.cons.inj hsame).2
    obtain ⟨rfl, -⟩ := Text.append_inj_of_class hparams hfound (by rintro c ⟨⟩; decide)
      (by rintro c ⟨⟩; decide) hparams'
    rfl
  · rintro rfl
    simp only [functionTail, fits_gap_append, fits_text_append, fits_parameter_append, fits_many,
      fits_perhaps_append, List.append_assoc, fits_text]
    exact ⟨[], _, by simp, rfl, _, rfl, [], params, [], _, ⟨rfl, hparams⟩, rfl, rfl, _, rfl, [], _, by simp,
      rfl, Or.inr ⟨rfl, rfl⟩⟩

theorem stable_function (h : rules[3].reading? line = some r) : r.Stable := by
  obtain ⟨parts, hfits, rfl⟩ := Rule.exists_fits h
  rw [rule_function, identifier, fits_name] at hfits
  obtain ⟨blanks, name, after, rest, -, -, hne, hname, htail, rfl, rfl⟩ := hfits
  obtain ⟨_, params, _, -, hparams, rfl, -⟩ := exists_of_fits_functionTail htail
  have hnameTrim : Text.trimChars name = name := Text.trimChars_of_isWord hname
  have hlays : Slot.Lays [⟨"def ", "name", "my_function", none⟩, ⟨"(", "params", "", none⟩] "):"
      (Catalog.entry "function").val := by decide +kernel
  have hwritten : Reading.written ⟨rules[3].block, trimmed [("name", name), ("params", params)]⟩
      = "def".toList ++ ' ' :: (name ++ '(' :: (Text.trimChars params ++ ')' :: [':'])) := by
    rw [rule_function, written_eq hlays]
    simp [Slot.text, List.lookup_cons, hnameTrim]
  refine Reading.stable_of_name (by decide) rfl (congrArg Rule.pattern rule_function)
    (fun c => Text.isBlank_eq_false_of_isWord) head_functionTail (by decide)
    (Text.flush_cons.mpr (by decide)) hne hname hwritten ?_
    (fun found => fits_functionTail_written fun c hc => hparams c (Text.mem_of_mem_trimChars hc)) ?_
  · rw [hwritten]
    simp [Text.Flush]
  · simp only [trimmed_cons, Text.trimChars_trimChars]

/-! ## Imports -/

/-- What may follow the name of a library. -/
def importTail : Pattern :=
  perhaps (space ++ (text "as" ++ (space ++ identifier "alias")))

theorem rule_import :
    rules[0] = ⟨Catalog.entry "import",
      text "import" ++ (space ++ (parameter "library" (run isDotted) ++ importTail))⟩ := rfl

theorem fits_importTail : Fits importTail parts cs ↔
    (∃ before after short, before ≠ [] ∧ (∀ c ∈ before, Text.isBlank c = true) ∧ after ≠ [] ∧
      (∀ c ∈ after, Text.isBlank c = true) ∧ short ≠ [] ∧ (∀ c ∈ short, Text.isWord c = true) ∧
      parts = [("alias", short)] ∧ cs = before ++ 'a' :: 's' :: (after ++ short)) ∨
    parts = [] ∧ cs = [] := by
  simp only [importTail, identifier, fits_perhaps, fits_space_append, fits_text_append, fits_parameter,
    fits_run]
  refine or_congr_left ⟨?_, ?_⟩
  · rintro ⟨before, _, hbefore, hblanks, rfl, _, rfl, after, short, hafter, hblanks', rfl, _,
      ⟨rfl, hne, hword⟩, rfl⟩
    exact ⟨before, after, short, hbefore, hblanks, hafter, hblanks', hne, hword, rfl, rfl⟩
  · rintro ⟨before, after, short, hbefore, hblanks, hafter, hblanks', hne, hword, rfl, rfl⟩
    exact ⟨before, _, hbefore, hblanks, rfl, _, rfl, after, short, hafter, hblanks', rfl, _,
      ⟨rfl, hne, hword⟩, rfl⟩

theorem isBlank_eq_false_of_isDotted {c : Char} (h : isDotted c = true) : Text.isBlank c = false := by
  rcases Bool.or_eq_true _ _ |>.mp h with h | h
  · exact Text.isBlank_eq_false_of_isWord h
  · rw [beq_iff_eq.mp h]
    decide

theorem trimChars_of_isDotted (h : ∀ c ∈ cs, isDotted c = true) : Text.trimChars cs = cs :=
  Text.trimChars_of_forall fun c hc => isBlank_eq_false_of_isDotted (h c hc)

theorem head_importTail (after : List (String × List Char)) (rest : List Char)
    (h : Fits importTail after rest) : ∀ c ∈ rest.head?, isDotted c = false := by
  rcases fits_importTail.mp h with ⟨before, _, _, hne, hblanks, -, -, -, -, -, rfl⟩ | ⟨-, rfl⟩
  · obtain ⟨b, before, rfl⟩ := List.exists_cons_of_ne_nil hne
    rintro c ⟨⟩
    have hb := hblanks b List.mem_cons_self
    cases hdotted : isDotted b with
    | false => rfl
    | true => rw [isBlank_eq_false_of_isDotted hdotted] at hb; cases hb
  · simp

theorem fits_importTail_written {short : List Char} (hshort : ∀ c ∈ short, Text.isWord c = true) :
    Fits importTail parts (wrapped " as " "" short) ↔ parts = optionalPart "alias" short := by
  rw [fits_importTail, wrapped, optionalPart]
  by_cases hnil : short = []
  · rw [if_pos hnil, if_pos hnil]
    constructor
    · rintro (⟨before, _, _, hne, -, -, -, -, -, -, hsame⟩ | ⟨rfl, -⟩)
      · exact absurd (List.append_eq_nil_iff.mp hsame.symm).1 hne
      · rfl
    · rintro rfl
      exact Or.inr ⟨rfl, rfl⟩
  · have htext : " as ".toList ++ (short ++ "".toList) = ' ' :: 'a' :: 's' :: ' ' :: short := by simp
    have hflush : Text.Flush short :=
      Text.flush_of_forall fun c hc => Text.isBlank_eq_false_of_isWord (hshort c hc)
    rw [if_neg hnil, if_neg hnil, htext]
    constructor
    · rintro (⟨before, after, found, hbefore, hblanks, hafter, hblanks', -, -, rfl, hsame⟩ | ⟨-, hsame⟩)
      · obtain ⟨-, hsame⟩ := Text.eq_singleton_of_blanks_append hbefore hblanks
          (Text.flush_cons.mpr (by decide)) hsame.symm
        obtain ⟨-, rfl⟩ := Text.eq_singleton_of_blanks_append hafter hblanks' hflush
          (List.cons.inj (List.cons.inj hsame).2).2
        rfl
      · cases hsame
    · rintro rfl
      exact Or.inl ⟨[' '], [' '], short, by simp, by decide, by simp, by decide, hnil, hshort, rfl, rfl⟩

theorem written_import {library short : List Char} {after : List (String × List Char)}
    (hshort : Text.trimChars short = short)
    (hafter : after = [("alias", short)] ∨ after = [] ∧ short = []) :
    Reading.written ⟨Catalog.entry "import", ("library", library) :: after⟩
      = "import".toList ++ ' ' :: (library ++ wrapped " as " "" short) := by
  have hlays : Slot.Lays [⟨"import ", "library", "math", none⟩, ⟨"", "alias", "", some .asClause⟩] ""
      (Catalog.entry "import").val := by decide +kernel
  simpa using written_shaped hlays apply_asClause (by decide) hshort hafter

/-- An import as it is written. -/
theorem stable_import {library short : List Char} {after : List (String × List Char)} (hne : library ≠ [])
    (hlibrary : ∀ c ∈ library, isDotted c = true) (hshort : ∀ c ∈ short, Text.isWord c = true)
    (hafter : after = [("alias", short)] ∨ after = [] ∧ short = []) :
    Reading.Stable ⟨Catalog.entry "import", ("library", library) :: after⟩ := by
  have htrim : Text.trimChars short = short := Text.trimChars_of_isWord hshort
  have hlibraryTrim : Text.trimChars library = library := trimChars_of_isDotted hlibrary
  have hwritten : Reading.written ⟨Catalog.entry "import", ("library", library) :: after⟩ = _ :=
    written_import htrim hafter
  refine Reading.stable_of_name (by decide) rfl (congrArg Rule.pattern rule_import)
    (fun c => isBlank_eq_false_of_isDotted) head_importTail (by simp)
    (Text.flush_cons.mpr (by decide)) hne hlibrary hwritten ?_
    (fun found => fits_importTail_written hshort) ?_
  · rw [hwritten, wrapped]
    by_cases hnil : short = []
    · rw [if_pos hnil, List.append_nil, Text.flush_reverse_append (by simp), Text.flush_reverse_cons hne]
      exact Text.flush_reverse_of_forall fun c hc => isBlank_eq_false_of_isDotted (hlibrary c hc)
    · have htext : " as ".toList ++ (short ++ "".toList) = " as ".toList ++ short := by simp
      have hne' : " as ".toList ++ short ≠ [] := by simp
      rw [if_neg hnil, htext, Text.flush_reverse_append (by simp), Text.flush_reverse_cons (by simp),
        Text.flush_reverse_append hne', Text.flush_reverse_append hnil]
      exact Text.flush_reverse_of_forall fun c hc => Text.isBlank_eq_false_of_isWord (hshort c hc)
  · rw [hwritten, trimmed_cons, hlibraryTrim, trimmed_optionalPart htrim]
    exact written_import htrim (optionalPart_cases _ _)

theorem stable_import_as (h : rules[0].reading? line = some r) : r.Stable := by
  obtain ⟨parts, hfits, rfl⟩ := Rule.exists_fits h
  rw [rule_import, fits_name] at hfits
  obtain ⟨blanks, library, after, rest, -, -, hne, hlibrary, htail, rfl, rfl⟩ := hfits
  have hlibraryTrim : Text.trimChars library = library := trimChars_of_isDotted hlibrary
  rw [trimmed_cons, hlibraryTrim]
  rcases fits_importTail.mp htail with ⟨_, _, short, -, -, -, -, -, hshort, rfl, -⟩ | ⟨rfl, -⟩
  · have hshortTrim : Text.trimChars short = short :=
      Text.trimChars_of_isWord hshort
    rw [trimmed_cons, hshortTrim]
    exact stable_import hne hlibrary hshort (Or.inl rfl)
  · exact stable_import hne hlibrary (by simp) (Or.inr ⟨rfl, rfl⟩)

theorem stable_import_from (h : rules[1].reading? line = some r) : r.Stable := by
  obtain ⟨parts, hfits, rfl⟩ := Rule.exists_fits h
  have hrule : rules[1] = ⟨Catalog.entry "import", text "from" ++ (space ++
      (parameter "library" (run isDotted) ++ (space ++ (text "import" ++ (space ++ run isInline)))))⟩ := rfl
  rw [hrule, fits_name] at hfits
  obtain ⟨blanks, library, after, rest, -, -, hne, hlibrary, htail, rfl, rfl⟩ := hfits
  simp only [fits_space_append, fits_text_append, fits_run] at htail
  -- What is imported from the library is matched, but no part of the reading.
  obtain ⟨_, _, -, -, -, _, -, _, _, -, -, -, rfl, -, -⟩ := htail
  have hlibraryTrim : Text.trimChars library = library := trimChars_of_isDotted hlibrary
  rw [trimmed_cons, hlibraryTrim]
  exact stable_import hne hlibrary (by simp) (Or.inr ⟨rfl, rfl⟩)

/-! ## A keyword and a value -/

/-- A keyword with something after it. -/
def trailing (keyword name : String) : Pattern :=
  text keyword ++ (space ++ something name)

theorem Pattern.fits_trailing {keyword name : String} : Fits (trailing keyword name) parts cs ↔
    ∃ blanks value, blanks ≠ [] ∧ (∀ c ∈ blanks, Text.isBlank c = true) ∧ value ≠ [] ∧
      (∀ c ∈ value, isInline c = true) ∧ parts = [(name, value)] ∧
      cs = keyword.toList ++ (blanks ++ value) := by
  simp only [trailing, something, fits_text_append, fits_space_append, fits_parameter, fits_run]
  constructor
  · rintro ⟨_, rfl, blanks, value, hne, hblanks, rfl, _, ⟨rfl, hvalue, hinline⟩, rfl⟩
    exact ⟨blanks, value, hne, hblanks, hvalue, hinline, rfl, rfl⟩
  · rintro ⟨blanks, value, hne, hblanks, hvalue, hinline, rfl, rfl⟩
    exact ⟨_, rfl, blanks, value, hne, hblanks, rfl, _, ⟨rfl, hvalue, hinline⟩, rfl⟩

/-- A value at the end of a line is found as it stands. -/
theorem Pattern.eq_of_fits_trailing {keyword name : String} (hflush : Text.Flush cs)
    (h : Fits (trailing keyword name) parts (keyword.toList ++ ' ' :: cs)) : parts = [(name, cs)] := by
  obtain ⟨blanks, found, hblanks, hall, -, -, rfl, hsame⟩ := fits_trailing.mp h
  rw [eq_of_blanks_append hblanks hall hflush hsame]

theorem Pattern.fits_trailing_written {keyword name : String} {value : List Char} (hne : value ≠ [])
    (hinline : ∀ c ∈ value, isInline c = true) (hflush : Text.Flush value) :
    Fits (trailing keyword name) parts (keyword.toList ++ ' ' :: value) ↔ parts = [(name, value)] := by
  refine ⟨eq_of_fits_trailing hflush, ?_⟩
  rintro rfl
  exact fits_trailing.mpr ⟨[' '], value, List.cons_ne_nil _ _, by decide, hne, hinline, rfl, rfl⟩

/-- A keyword and a value, where what the rule says of such a line is known. -/
theorem Reading.stable_trailing (keyword default : String) {name : String} {value : List Char}
    (hk : k < rules.length)
    (hlays : Slot.Lays [⟨keyword ++ " ", name, default, none⟩] "" rules[k].block.val)
    (hrule : ∀ parts, rules[k].pattern.Fits parts (keyword.toList ++ ' ' :: value) ↔
      (trailing keyword name).Fits parts (keyword.toList ++ ' ' :: value))
    (hclash : ∀ rule ∈ rules.take k, rule.pattern.clashes (keyword.toList ++ [' ']) = true)
    (hkeyword : Text.Flush (keyword.toList ++ [' '])) (hne : value ≠ [])
    (hinline : ∀ c ∈ value, isInline c = true) (htrim : Text.trimChars value = value) :
    Reading.Stable ⟨rules[k].block, [(name, value)]⟩ := by
  have hwritten : Reading.written ⟨rules[k].block, [(name, value)]⟩ = keyword.toList ++ ' ' :: value := by
    rw [written_one hlays]
    simp
  have hlead : keyword.toList ++ ' ' :: value = (keyword.toList ++ [' ']) ++ value := by
    rw [List.append_cons]
  have hflush : Text.Flush value := htrim ▸ Text.flush_trimChars value
  refine Reading.stable_of_parts [(name, value)] hk rfl ?_ ?_ (fun j hlength hj => ?_) ?_
    (eq_trimmed_of_parts? fun parts hparts => ?_) ?_
  · rw [hwritten, hlead]
    exact hkeyword.append (by simp) _
  · rw [hwritten, Text.flush_reverse_append (by simp), Text.flush_reverse_cons hne]
    exact htrim ▸ Text.flush_reverse_trimChars value
  · rw [hwritten, hlead]
    exact reading?_eq_none_of_clash _ hclash hj hlength _
  · rw [hwritten, hrule, fits_trailing_written hne hinline hflush]
  · rwa [hwritten, hrule, fits_trailing_written hne hinline hflush] at hparts
  · rw [trimmed_cons, htrim, trimmed_nil]

/-- The value at the end of a line that is trimmed is not blank. -/
theorem trimChars_ne_nil_of_line {keyword : String} {blanks value : List Char} (hne : value ≠ [])
    (hline : Text.Flush (keyword.toList ++ (blanks ++ value)).reverse) : Text.trimChars value ≠ [] := by
  rw [Text.flush_reverse_append (by simp [hne]), Text.flush_reverse_append hne] at hline
  exact Text.trimChars_ne_nil hne hline

theorem stable_raise (hline : Text.Flush line.reverse) (h : rules[15].reading? line = some r) : r.Stable := by
  obtain ⟨parts, hfits, rfl⟩ := Rule.exists_fits h
  have hrule : rules[15].pattern = trailing "raise" "exception" := rfl
  rw [hrule] at hfits
  obtain ⟨blanks, value, -, -, hne, hinline, rfl, rfl⟩ := fits_trailing.mp hfits
  exact Reading.stable_trailing "raise" "ValueError(\"Error message\")" (by decide) (by decide +kernel)
    (fun _ => Iff.rfl) (by decide) (Text.flush_cons.mpr (by decide)) (trimChars_ne_nil_of_line hne hline)
    (fun c hc => hinline c (Text.mem_of_mem_trimChars hc)) (Text.trimChars_trimChars value)

theorem fits_return : Fits rules[16].pattern parts cs ↔
    (trailing "return" "value").Fits parts cs ∨ parts = [] ∧ cs = "return".toList := by
  have hrule : rules[16].pattern = text "return" ++ perhaps (space ++ something "value") := rfl
  rw [hrule, fits_text_append, trailing, fits_text_append]
  simp only [fits_perhaps, and_or_left, exists_or]
  simp [and_comm]

theorem stable_return (hline : Text.Flush line.reverse) (h : rules[16].reading? line = some r) : r.Stable := by
  obtain ⟨parts, hfits, rfl⟩ := Rule.exists_fits h
  rcases fits_return.mp hfits with hfits | ⟨rfl, -⟩
  · obtain ⟨blanks, value, -, -, hne, hinline, rfl, rfl⟩ := fits_trailing.mp hfits
    refine Reading.stable_trailing "return" "None" (by decide) (by decide +kernel)
      (fun parts => ?_) (by decide) (Text.flush_cons.mpr (by decide)) (trimChars_ne_nil_of_line hne hline)
      (fun c hc => hinline c (Text.mem_of_mem_trimChars hc)) (Text.trimChars_trimChars value)
    rw [fits_return]
    refine or_iff_left ?_
    simp
  · exact stable_bare "return" (by simp) _ rfl

end Blockwork.Source
