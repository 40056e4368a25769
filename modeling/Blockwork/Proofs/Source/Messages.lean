import Blockwork.Proofs.Source.Keywords

/-!
# `Blockwork.Proofs.Source.Messages`: printed messages and comments

A message is written in quotes unless it is an expression, and a message in quotes is an expression.
A comment is written with one blank after its sign, and a line that is not recognised becomes a comment
that will be.

## Contents
- `quotedText` and `stable_print`.
- `stable_comment`, with `stable_of_comment` and `stable_unparsed`.
-/

namespace Blockwork.Source

open Pattern

variable {k : Nat} {line cs : List Char} {r : Reading} {parts : List (String × List Char)}

/-! ## Messages -/

theorem fits_print : Fits rules[19].pattern parts cs ↔ ∃ message,
    (∀ c ∈ message, isInline c = true) ∧ parts = [("message", message)] ∧
      cs = "print(".toList ++ (message ++ [')']) := by
  have hrule : rules[19].pattern = text "print(" ++ (anything "message" ++ text ")") := rfl
  rw [hrule]
  simp only [anything, fits_text_append, fits_parameter_append, fits_many, fits_text]
  constructor
  · rintro ⟨_, rfl, _, message, _, _, ⟨rfl, hinline⟩, rfl, rfl, rfl, rfl⟩
    exact ⟨message, hinline, rfl, rfl⟩
  · rintro ⟨message, hinline, rfl, rfl⟩
    exact ⟨_, rfl, _, message, _, _, ⟨rfl, hinline⟩, rfl, rfl, rfl, rfl⟩

/-- A message as it is written. -/
def quotedText (message : List Char) : List Char :=
  (Formatter.quoteUnlessExpression (String.ofList message)).toList

theorem quotedText_cases (message : List Char) :
    quotedText message = message ∨ quotedText message = '"' :: (message ++ ['"']) := by
  rw [quotedText, Formatter.quoteUnlessExpression]
  split
  · exact Or.inl String.toList_ofList
  · refine Or.inr ?_
    simp

theorem quotedText_quotedText (message : List Char) :
    quotedText (quotedText message) = quotedText message := by
  have hquote : ∀ cs : List Char,
      cs.head? = some '"' ∨ cs.head? = some '\'' ∨ '(' ∈ cs → quotedText cs = cs := by
    intro cs h
    rw [quotedText, Formatter.quoteUnlessExpression, if_pos (by rwa [String.toList_ofList]),
      String.toList_ofList]
  by_cases h : message.head? = some '"' ∨ message.head? = some '\'' ∨ '(' ∈ message
  · rw [hquote message h, hquote message h]
  · refine hquote _ (Or.inl ?_)
    rw [quotedText, Formatter.quoteUnlessExpression, if_neg (by rwa [String.toList_ofList])]
    simp

theorem written_print (message : List Char) :
    Reading.written ⟨Catalog.entry "print", [("message", message)]⟩
      = "print(".toList ++ (quotedText message ++ [')']) := by
  have hlays : Slot.Lays [⟨"print(", "message", "Hello, World!", some .quoted⟩] ")"
      (Catalog.entry "print").val := by decide +kernel
  rw [written_eq hlays]
  simp [Slot.text, List.lookup_cons, Formatter.apply, quotedText]

theorem stable_print (h : rules[19].reading? line = some r) : r.Stable := by
  obtain ⟨parts, hfits, rfl⟩ := Rule.exists_fits h
  obtain ⟨message, hinline, rfl, rfl⟩ := fits_print.mp hfits
  -- A message in quotes begins and ends with them, and one that needs none was trimmed.
  have hquoted : Text.trimChars (quotedText (Text.trimChars message))
      = quotedText (Text.trimChars message) := by
    rcases quotedText_cases (Text.trimChars message) with hsame | hquotes
    · rw [hsame, Text.trimChars_trimChars]
    · rw [hquotes]
      exact Text.trimChars_eq_self (Text.flush_cons.mpr (by decide)) (by simp [Text.Flush]; decide)
  have hinlineQuoted : ∀ c ∈ quotedText (Text.trimChars message), isInline c = true := by
    intro c hc
    have hmessage : ∀ c ∈ Text.trimChars message, isInline c = true :=
      fun c hc => hinline c (Text.mem_of_mem_trimChars hc)
    rcases quotedText_cases (Text.trimChars message) with hsame | hquotes
    · exact hmessage c (hsame ▸ hc)
    · rw [hquotes] at hc
      simp only [List.mem_cons, List.mem_append, List.not_mem_nil, or_false] at hc
      rcases hc with rfl | hc | rfl
      · decide
      · exact hmessage c hc
      · decide
  have hwritten : Reading.written ⟨rules[19].block, trimmed [("message", message)]⟩ = _ :=
    written_print (Text.trimChars message)
  have hunique : ∀ parts, Fits rules[19].pattern parts
      ("print(".toList ++ (quotedText (Text.trimChars message) ++ [')'])) ↔
        parts = [("message", quotedText (Text.trimChars message))] := by
    intro parts
    rw [fits_print]
    constructor
    · rintro ⟨found, -, rfl, hsame⟩
      rw [List.append_cancel_left_eq] at hsame
      rw [List.append_cancel_right hsame]
    · rintro rfl
      exact ⟨_, hinlineQuoted, rfl, rfl⟩
  refine Reading.stable_of_parts [("message", quotedText (Text.trimChars message))] (by decide) rfl ?_ ?_
    (fun j hlength hj => ?_) ?_ (eq_trimmed_of_parts? fun parts hparts => ?_) ?_
  · rw [hwritten]
    exact Text.flush_cons.mpr (by decide)
  · rw [hwritten]
    simp [Text.Flush]
  · rw [hwritten]
    exact reading?_eq_none_of_clash "print(".toList (by decide) hj hlength _
  · rw [hwritten]
    exact (hunique _).mpr rfl
  · rw [hwritten] at hparts
    exact (hunique _).mp hparts
  · rw [trimmed_cons, trimmed_nil, hquoted, hwritten]
    exact (written_print _).trans (by rw [quotedText_quotedText])

/-! ## Comments -/

theorem fits_comment : Fits rules[20].pattern parts cs ↔ ∃ blanks value, blanks.length ≤ 1 ∧
    (∀ c ∈ blanks, Text.isBlank c = true) ∧ (∀ c ∈ value, isInline c = true) ∧
      parts = [("text", value)] ∧ cs = '#' :: (blanks ++ value) := by
  have hrule : rules[20].pattern = text "#" ++ (perhaps [.one Text.isBlank] ++ anything "text") := rfl
  rw [hrule]
  simp only [anything, fits_text_append, fits_perhaps_append]
  simp only [fits_append, fits_one, fits_parameter, fits_many]
  constructor
  · rintro ⟨_, rfl, ⟨_, _, _, _, rfl, rfl, ⟨rfl, b, rfl, hb⟩, _, ⟨rfl, hinline⟩, rfl⟩ |
      ⟨_, ⟨rfl, hinline⟩, rfl⟩⟩
    · exact ⟨[b], _, le_rfl, by simpa using hb, hinline, rfl, rfl⟩
    · exact ⟨[], _, Nat.zero_le 1, by simp, hinline, rfl, rfl⟩
  · rintro ⟨blanks, value, hlength, hblanks, hinline, rfl, rfl⟩
    refine ⟨_, rfl, ?_⟩
    -- One blank at most belongs to the mark; more of them belong to the text.
    match blanks, hlength with
    | [], _ => exact Or.inr ⟨[], ⟨rfl, hinline⟩, rfl⟩
    | [b], _ =>
        exact Or.inl ⟨[], _, [b], value, rfl, rfl, ⟨rfl, b, rfl, hblanks b List.mem_cons_self⟩, [],
          ⟨rfl, hinline⟩, rfl⟩

/-- A comment as it is written; without text, its blank does not come back. -/
theorem stable_comment {value : List Char} (htrim : Text.trimChars value = value)
    (hinline : ∀ c ∈ value, isInline c = true) : Reading.Stable ⟨Catalog.comment, [("text", value)]⟩ := by
  have hlays : Slot.Lays [⟨"# ", "text", "This is a comment", none⟩] "" Catalog.comment.val := by
    decide +kernel
  have hwritten : Reading.written ⟨Catalog.comment, [("text", value)]⟩ = '#' :: ' ' :: value := by
    rw [written_one hlays]
    simp
  obtain ⟨blanks, hlength, hblanks, hline⟩ : ∃ blanks : List Char, blanks.length ≤ 1 ∧
      (∀ c ∈ blanks, Text.isBlank c = true) ∧
        Text.trimChars ('#' :: ' ' :: value) = '#' :: (blanks ++ value) := by
    by_cases hnil : value = []
    · exact ⟨[], Nat.zero_le 1, by simp, by rw [hnil]; decide⟩
    · refine ⟨[' '], le_rfl, by decide, Text.trimChars_eq_self (Text.flush_cons.mpr (by decide)) ?_⟩
      rw [Text.flush_reverse_cons (by simp), Text.flush_reverse_cons hnil]
      exact htrim ▸ Text.flush_reverse_trimChars value
  have hfits : Fits rules[20].pattern [("text", value)] ('#' :: (blanks ++ value)) :=
    fits_comment.mpr ⟨blanks, value, hlength, hblanks, hinline, rfl, rfl⟩
  obtain ⟨j, again, hj, hagain, hreading⟩ := exists_recognise?_of_fits (by decide) hfits
  refine ⟨?_, again, by rw [hwritten, hline, hagain], ?_⟩
  · rw [hwritten]
    exact Text.flush_cons.mpr (by decide)
  rcases Nat.lt_or_eq_of_le hj with hlt | rfl
  · have hnone := reading?_eq_none_of_clash ['#'] (by decide) hlt (hlt.trans (by decide)) (blanks ++ value)
    rw [List.singleton_append, hreading] at hnone
    cases hnone
  · obtain ⟨parts, hparts, rfl⟩ := Rule.exists_fits hreading
    obtain ⟨before, found, -, hbefore, -, rfl, hsame⟩ := fits_comment.mp hparts
    have hfound := congrArg Text.trimChars (List.cons.inj hsame).2
    rw [Text.trimChars_blanks_append hblanks, Text.trimChars_blanks_append hbefore, htrim] at hfound
    rw [trimmed_cons, ← hfound]
    exact Reading.Kept.refl _

theorem stable_of_comment (h : rules[20].reading? line = some r) : r.Stable := by
  obtain ⟨parts, hfits, rfl⟩ := Rule.exists_fits h
  obtain ⟨_, value, -, -, hinline, rfl, -⟩ := fits_comment.mp hfits
  exact stable_comment (Text.trimChars_trimChars value)
    fun c hc => hinline c (Text.mem_of_mem_trimChars hc)

/-- A line that is not recognised is kept as a comment that will be. -/
theorem stable_unparsed (htrim : Text.trimChars line = line) (hne : line ≠ [])
    (hinline : ∀ c ∈ line, isInline c = true) :
    Reading.Stable ⟨Catalog.comment, [("text", unparsedMark.toList ++ line)]⟩ := by
  refine stable_comment (Text.trimChars_eq_self (Text.flush_cons.mpr (by decide)) ?_) ?_
  · rw [Text.flush_reverse_append hne]
    exact htrim ▸ Text.flush_reverse_trimChars line
  · intro c hc
    rcases List.mem_append.mp hc with hc | hc
    · have hmark : ∀ c ∈ unparsedMark.toList, isInline c = true := by decide
      exact hmark c hc
    · exact hinline c hc

end Blockwork.Source
