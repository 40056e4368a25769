import Blockwork.Proofs.Source.Clauses
import Mathlib.Data.List.Chain

/-!
# `Blockwork.Proofs.Source.Headers`: keywords that are assigned to

An assignment to a keyword is written with the keyword, a blank and an equals sign, and that may read as
the statement of the keyword: `if = x:` is taken for a header. The statement is then written with its
values trimmed and with single spaces around the words that divide them, so it is written as it stands
if it had no other blanks there.

## Contents
- `Text.Spaced`, a text whose blanks are single spaces.
- `headers`, `dividers` and `Tidy`: a line that is laid out as a header is written.
- `Rule.Keeps`, with `keeps_suite`, `keeps_for`, `keeps_except`, `keeps_raise` and `keeps_return`.
-/

namespace Blockwork

namespace Text

-- One character is looked at, not all characters that there are.
instance (cs : List Char) : Decidable (Flush cs) :=
  decidable_of_iff (cs.head?.any isBlank = false) (by simp [Flush, Option.any_eq_false])

/-- The blanks of the text are single spaces. -/
structure Spaced (cs : List Char) : Prop where
  apart : cs.IsChain fun c d => ¬(isBlank c = true ∧ isBlank d = true)
  plain : ∀ c ∈ cs, isBlank c = true → c = ' '

instance (cs : List Char) : Decidable (Spaced cs) :=
  decidable_of_iff
    ((cs.IsChain fun c d => ¬(isBlank c = true ∧ isBlank d = true)) ∧ ∀ c ∈ cs, isBlank c = true → c = ' ')
    ⟨fun h => ⟨h.1, h.2⟩, fun h => ⟨h.apart, h.plain⟩⟩

/-- Blanks in such a text are one space, and there are none before or after it. -/
theorem Spaced.eq_space {before blanks after : List Char} (h : Spaced (before ++ (blanks ++ after)))
    (hne : blanks ≠ []) (hblanks : ∀ c ∈ blanks, isBlank c = true) :
    blanks = [' '] ∧ Flush before.reverse ∧ Flush after := by
  obtain ⟨b, rest, rfl⟩ := List.exists_cons_of_ne_nil hne
  obtain ⟨hb, hrest⟩ := List.forall_mem_cons.mp hblanks
  obtain ⟨-, hapart, hbefore⟩ := List.isChain_append.mp h.apart
  rw [List.cons_append, List.isChain_cons] at hapart
  have hnext : ∀ c ∈ (rest ++ after).head?, isBlank c = false :=
    fun c hc => Bool.eq_false_iff.mpr fun hblank => hapart.1 c hc ⟨hb, hblank⟩
  have hnone : rest = [] := by
    cases rest with
    | nil => rfl
    | cons d rest => exact absurd (hrest d List.mem_cons_self) (by simp [hnext d rfl])
  subst hnone
  refine ⟨by rw [h.plain b (by simp) hb], fun c hc => ?_, hnext⟩
  rw [List.head?_reverse] at hc
  exact Bool.eq_false_iff.mpr fun hblank => hbefore c hc b rfl ⟨hblank, hb⟩

end Text

namespace Source

open Pattern

variable {keyword name default : String} {cs : List Char} {parts : List (String × List Char)}
  {rule : Rule} {again : Reading}

/-! ## Tidy lines -/

/-- The keywords of the statements that hold a value before a colon. -/
def headers : List String :=
  ["if", "elif", "for", "while", "match", "case", "except"]

/-- The words between two values of a header. -/
def dividers : List (String × String) :=
  [("for", "in"), ("except", "as")]

/-- What follows a keyword is tidy if no header of the keyword ends with it, or if it is laid out as the
    header is written: without blanks before the colon, and with single spaces if there may be a second
    value. -/
def Tidy (keyword : String) (cs : List Char) : Prop :=
  cs.getLast? = some ':' → Text.Flush cs.dropLast.reverse ∧
    ∀ word ∈ dividers.lookup keyword, word.toList <:+: cs → Text.Spaced cs

instance (keyword : String) (cs : List Char) : Decidable (Tidy keyword cs) :=
  inferInstanceAs (Decidable (_ → _ ∧ _))

theorem Tidy.of_colon (h : Tidy keyword (cs ++ [':'])) : Text.Flush cs.reverse ∧
    ∀ word ∈ dividers.lookup keyword, word.toList <:+: cs ++ [':'] → Text.Spaced (cs ++ [':']) := by
  have htidy := h (by simp)
  rwa [List.dropLast_concat] at htidy

/-- What is read by the rule, where an equals sign follows the keyword, is written as it stands, and the
    block is in no group of its own. -/
structure Rule.Keeps (keyword : String) (rule : Rule) : Prop where
  group : rule.block.val.kind.bucket = .other
  written : ∀ cs, Text.Flush ('=' :: cs).reverse → (keyword ∈ headers → Tidy keyword ('=' :: cs)) →
    ∀ again ∈ rule.reading? (keyword.toList ++ ' ' :: '=' :: cs),
      again.written = keyword.toList ++ ' ' :: '=' :: cs

theorem flush_equals (cs : List Char) : Text.Flush ('=' :: cs) :=
  Text.flush_cons.mpr (by decide)

/-! ## A keyword and one value -/

theorem keeps_suite (hheader : keyword ∈ headers) (hgroup : rule.block.val.kind.bucket = .other)
    (hrule : rule.pattern = suite keyword name)
    (hlays : Slot.Lays [⟨keyword ++ " ", name, default, none⟩] ":" rule.block.val) :
    rule.Keeps keyword := by
  refine ⟨hgroup, fun cs _ htidy again h => ?_⟩
  obtain ⟨parts, hfits, rfl⟩ := Rule.exists_fits h
  rw [hrule] at hfits
  obtain ⟨blanks, value, hblanks, hall, hne, -, rfl, hsame⟩ := fits_suite.mp hfits
  have hvalue := eq_of_blanks_append hblanks hall (flush_equals cs) hsame
  have hflush := flush_equals cs
  have htidy := htidy hheader
  rw [← hvalue] at hflush htidy ⊢
  rw [trimmed_cons, trimmed_nil, Text.trimChars_eq_self hflush.of_append htidy.of_colon.1,
    written_one hlays]
  simp

-- `if=x:` is written with one blank around the equals sign, and `if=x :` would lose the last blank.
example : Tidy "if" "= x:".toList ∧ ¬Tidy "if" "= x :".toList := by decide

theorem keeps_if : rules[4].Keeps "if" :=
  keeps_suite (by decide) rfl rfl (by decide +kernel : Slot.Lays [⟨"if ", "condition", "True", none⟩] ":" _)

theorem keeps_elif : rules[5].Keeps "elif" :=
  keeps_suite (by decide) rfl rfl (by decide +kernel : Slot.Lays [⟨"elif ", "condition", "True", none⟩] ":" _)

theorem keeps_while : rules[8].Keeps "while" :=
  keeps_suite (by decide) rfl rfl (by decide +kernel : Slot.Lays [⟨"while ", "condition", "True", none⟩] ":" _)

theorem keeps_match : rules[9].Keeps "match" :=
  keeps_suite (by decide) rfl rfl (by decide +kernel : Slot.Lays [⟨"match ", "value", "variable", none⟩] ":" _)

theorem keeps_case : rules[11].Keeps "case" :=
  keeps_suite (by decide) rfl rfl (by decide +kernel : Slot.Lays [⟨"case ", "pattern", "1", none⟩] ":" _)

theorem keeps_trailing (hgroup : rule.block.val.kind.bucket = .other)
    (hrule : ∀ parts cs, rule.pattern.Fits parts (keyword.toList ++ ' ' :: cs) →
      (trailing keyword name).Fits parts (keyword.toList ++ ' ' :: cs))
    (hlays : Slot.Lays [⟨keyword ++ " ", name, default, none⟩] "" rule.block.val) :
    rule.Keeps keyword := by
  refine ⟨hgroup, fun cs hend _ again h => ?_⟩
  obtain ⟨parts, hfits, rfl⟩ := Rule.exists_fits h
  rw [eq_of_fits_trailing (flush_equals cs) (hrule _ _ hfits), trimmed_cons, trimmed_nil,
    Text.trimChars_eq_self (flush_equals cs) hend, written_one hlays]
  simp

theorem keeps_raise : rules[15].Keeps "raise" :=
  keeps_trailing rfl (fun _ _ h => h)
    (by decide +kernel : Slot.Lays [⟨"raise ", "exception", "ValueError(\"Error message\")", none⟩] "" _)

theorem keeps_return : rules[16].Keeps "return" := by
  refine keeps_trailing rfl (fun parts cs h => ?_)
    (by decide +kernel : Slot.Lays [⟨"return ", "value", "None", none⟩] "" _)
  refine (fits_return.mp h).resolve_right fun hbare => ?_
  simp at hbare

/-! ## Loops over a range and exceptions -/

/-- Where a word divides a tidy line there is one space on each side of it, so the values around it are
    trimmed already. -/
theorem Tidy.divided {before part after rest : List Char} (word : String)
    (hword : dividers.lookup keyword = some word)
    (h : Tidy keyword (part ++ (before ++ (word.toList ++ (after ++ (rest ++ [':']))))))
    (hbefore : before ≠ []) (hallBefore : ∀ c ∈ before, Text.isBlank c = true)
    (hafter : after ≠ []) (hallAfter : ∀ c ∈ after, Text.isBlank c = true) (hrest : rest ≠ []) :
    before = [' '] ∧ after = [' '] ∧ Text.Flush part.reverse ∧ Text.Flush rest ∧ Text.Flush rest.reverse := by
  have hcolon : part ++ (before ++ (word.toList ++ (after ++ (rest ++ [':']))))
      = (part ++ before ++ word.toList ++ after ++ rest) ++ [':'] := by simp
  have hsplit : part ++ (before ++ (word.toList ++ (after ++ (rest ++ [':']))))
      = (part ++ before ++ word.toList) ++ (after ++ (rest ++ [':'])) := by simp
  obtain ⟨hend, hspaced⟩ := (hcolon ▸ h).of_colon
  have hspaced := hspaced word hword ⟨part ++ before, after ++ (rest ++ [':']), by simp⟩
  rw [← hcolon] at hspaced
  obtain ⟨hbefore, hpartEnd, -⟩ := hspaced.eq_space hbefore hallBefore
  rw [hsplit] at hspaced
  obtain ⟨hafter, -, hrestFlush⟩ := hspaced.eq_space hafter hallAfter
  exact ⟨hbefore, hafter, hpartEnd, hrestFlush.of_append, (Text.flush_reverse_append hrest _).mp hend⟩

theorem keeps_for : rules[7].Keeps "for" := by
  refine ⟨rfl, fun cs _ htidy again h => ?_⟩
  obtain ⟨parts, hfits, rfl⟩ := Rule.exists_fits h
  rw [rule_for] at hfits
  simp only [List.append_assoc, fits_text_append, fits_space_append, fits_parameter_append,
    fits_shortRun, fits_forTail] at hfits
  obtain ⟨_, hsame, blanks, _, hblanks, hall, rfl, _, part, _, _, ⟨rfl, -, -⟩, rfl, rfl,
    before, after, range, hbefore, hallBefore, hafter, hallAfter, hrange, -, rfl, rfl⟩ := hfits
  have hvalue := eq_of_blanks_append hblanks hall (flush_equals cs) hsame
  have hflush := flush_equals cs
  have htidy := htidy (by decide)
  rw [← hvalue] at hflush htidy ⊢
  obtain ⟨rfl, rfl, hpartEnd, hrangeFlush, hrangeEnd⟩ :=
    htidy.divided "in" rfl hbefore hallBefore hafter hallAfter hrange
  rw [List.nil_append, trimmed_cons, trimmed_cons, trimmed_nil,
    Text.trimChars_eq_self hflush.of_append hpartEnd, Text.trimChars_eq_self hrangeFlush hrangeEnd]
  exact written_for part range

/-- Without an exception the equals sign would have to be a letter or a colon. -/
theorem not_fits_exceptTail_equals (cs : List Char) : ¬Fits exceptTail parts (' ' :: '=' :: cs) := by
  intro h
  rcases fits_exceptTail.mp h with
    ⟨before, _, _, _, hbefore, hall, -, -, -, -, -, -, hline⟩ | ⟨blanks, hblanks, -, hline⟩
  · obtain ⟨-, hline⟩ := Text.eq_singleton_of_blanks_append hbefore hall (flush_equals cs) hline.symm
    cases hline
  · have hne : blanks ≠ [] := by
      rintro rfl
      cases hline
    obtain ⟨-, hline⟩ := Text.eq_singleton_of_blanks_append hne hblanks (flush_equals cs) hline.symm
    cases hline

/-- An exception is written with what follows it, if the line is tidy. -/
theorem written_of_exceptTail {part rest : List Char} (hflush : Text.Flush part)
    (htidy : Tidy "except" (part ++ rest)) (h : Fits exceptTail parts rest) :
    Reading.written ⟨rules[13].block, trimmed (("exception", part) :: parts)⟩
      = "except".toList ++ ' ' :: (part ++ rest) := by
  rcases fits_exceptTail.mp h with
    ⟨before, after, short, blanks, hbefore, hall, hafter, hall', hshort, hword, hblanks, rfl, rfl⟩ |
    ⟨blanks, hblanks, rfl, rfl⟩
  · rw [← List.append_assoc short] at htidy
    obtain ⟨rfl, rfl, hend, -, hrest⟩ := htidy.divided "as" rfl hbefore hall hafter hall' (by simp [hshort])
    obtain rfl := Text.eq_nil_of_flush_reverse hblanks hrest
    have htrim := Text.trimChars_of_isWord hword
    rw [trimmed_cons, trimmed_cons, trimmed_nil, htrim, Text.trimChars_eq_self hflush hend]
    refine (written_except htrim (Or.inl rfl)).trans ?_
    rw [wrapped_as hshort]
    simp
  · rw [← List.append_assoc] at htidy
    have hend := htidy.of_colon.1
    obtain rfl := Text.eq_nil_of_flush_reverse hblanks hend
    rw [List.append_nil] at hend
    rw [trimmed_cons, trimmed_nil, Text.trimChars_eq_self hflush hend]
    refine (written_except (rfl : Text.trimChars [] = []) (Or.inr ⟨rfl, rfl⟩)).trans ?_
    simp [wrapped]

theorem keeps_except : rules[13].Keeps "except" := by
  refine ⟨rfl, fun cs _ htidy again h => ?_⟩
  obtain ⟨values, hparts, rfl⟩ := Option.map_eq_some_iff.mp h
  rw [parts?_except, Option.or_eq_some_iff] at hparts
  rcases hparts with hparts | ⟨-, hparts⟩
  · obtain ⟨found, hfits, rfl⟩ := exists_fits hparts
    simp only [namedException, List.append_assoc, fits_text_append, fits_space_append,
      fits_parameter_append, fits_shortRun] at hfits
    obtain ⟨_, hsame, blanks, _, hblanks, hall, rfl, _, part, tail, _, ⟨rfl, -, -⟩, rfl, rfl, htail⟩ := hfits
    have hvalue := eq_of_blanks_append hblanks hall (flush_equals cs) hsame
    have hflush := flush_equals cs
    have htidy := htidy (by decide)
    rw [← hvalue] at hflush htidy ⊢
    exact written_of_exceptTail hflush.of_append htidy htail
  · obtain ⟨found, hfits, -⟩ := exists_fits hparts
    obtain ⟨rest, hsame, htail⟩ := fits_text_append.mp hfits
    rw [List.append_cancel_left_eq] at hsame
    exact absurd (hsame ▸ htail) (not_fits_exceptTail_equals cs)

end Source

end Blockwork
