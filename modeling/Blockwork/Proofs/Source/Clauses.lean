import Blockwork.Proofs.Source.Keywords

/-!
# `Blockwork.Proofs.Source.Clauses`: loops over a range and exceptions

The variable of a loop and the exception of a clause are as short as possible, and what is written
after them is not what stood after them in the line. A shorter value would do in what is written only
if it had done in the line already.

## Contents
- `parts?_shortRun_written`, and `Reading.stable_of_shortest`.
- `forTail`, with `exists_fits_forTail`, and `stable_for`.
- `exceptTail`, with `exists_fits_exceptTail`, and `stable_except`.
-/

namespace Blockwork.Source

open Pattern

variable {k : Nat} {line cs : List Char} {r : Reading} {parts : List (String × List Char)}

/-! ## Shortest values -/

section Shortest

variable {p : Char → Bool} {keyword name : String} {tail : Pattern}

theorem fits_lead : Fits (text keyword ++ space) parts cs ↔ ∃ blanks, blanks ≠ [] ∧
    (∀ c ∈ blanks, Text.isBlank c = true) ∧ parts = [] ∧ cs = keyword.toList ++ blanks := by
  rw [fits_text_append]
  simp only [fits_space]
  constructor
  · rintro ⟨blanks, rfl, rfl, hne, hblanks⟩
    exact ⟨blanks, hne, hblanks, rfl, rfl⟩
  · rintro ⟨blanks, hne, hblanks, rfl, rfl⟩
    exact ⟨blanks, rfl, rfl, hne, hblanks⟩

/-- A value is found where it was written, if no shorter value would leave a text that fits. -/
theorem parts?_shortRun_written {value rest : List Char} {values : List (String × List Char)}
    (h : (text keyword ++ space ++ (parameter name (shortRun p) ++ tail)).parts?
      (keyword.toList ++ ' ' :: (value ++ rest)) = some values)
    (hne : value ≠ []) (hflush : Text.Flush value) (hrest : tail.Fits parts rest)
    (hshort : ∀ u v, value = u ++ v → u ≠ [] → v ≠ [] → ∀ parts, ¬tail.Fits parts (v ++ rest)) :
    ∃ after, tail.Fits after rest ∧ values = trimmed ((name, value) :: after) := by
  obtain ⟨before, after, head, part, rest', hsame, hlead, hpart, -, htail, rfl, hshort'⟩ :=
    parts?_shortRun h
  obtain ⟨blanks, hblanks, hall, rfl, rfl⟩ := fits_lead.mp hlead
  rw [List.append_assoc] at hsame
  have hsame := eq_of_blanks_append hblanks hall (hflush.append hne _) hsame
  rw [List.append_eq_append_iff] at hsame
  -- If the two cuts differed, the longer part would not be the shortest one.
  have hcut : part = value ∧ rest' = rest := by
    rcases hsame with ⟨v, rfl, rfl⟩ | ⟨v, rfl, rfl⟩
    · -- The part that was found is an initial part of the value.
      by_cases hv : v = []
      · simp [hv]
      · exact absurd htail (hshort part v rfl hpart hv _)
    · by_cases hv : v = []
      · simp [hv]
      · exact absurd hrest (hshort' value v rfl hne hv _)
  obtain ⟨rfl, rfl⟩ := hcut
  exact ⟨after, htail, rfl⟩

/-- A keyword, a value that is as short as possible, and what can follow it in one way only. -/
theorem Reading.stable_of_shortest (keyword : String) {value rest : List Char}
    {after : List (String × List Char)} (hk : k < rules.length) (hblock : r.block = rules[k].block)
    (hrule : rules[k].pattern.parts? r.written
      = (text keyword ++ space ++ (parameter name (shortRun p) ++ tail)).parts? r.written)
    (hclash : ∀ rule ∈ rules.take k, rule.pattern.clashes (keyword.toList ++ [' ']) = true)
    (hkeyword : Text.Flush (keyword.toList ++ [' '])) (hne : value ≠ []) (hflush : Text.Flush value)
    (hwritten : r.written = keyword.toList ++ ' ' :: (value ++ rest))
    (hend : Text.Flush r.written.reverse)
    (hfits : rules[k].pattern.Fits ((name, value) :: after) r.written)
    (hunique : ∀ found, Fits tail found rest ↔ found = after)
    (hshort : ∀ u v, value = u ++ v → u ≠ [] → v ≠ [] → ∀ parts, ¬tail.Fits parts (v ++ rest))
    (hagain : Reading.written ⟨rules[k].block, trimmed ((name, value) :: after)⟩ = r.written) :
    r.Stable := by
  have hlead : r.written = (keyword.toList ++ [' ']) ++ (value ++ rest) := by
    rw [hwritten, List.append_cons]
  refine Reading.stable_of_parts ((name, value) :: after) hk hblock ?_ hend (fun j hlength hj => ?_) hfits
    (fun values hvalues => ?_) hagain
  · rw [hlead]
    exact hkeyword.append (by simp) _
  · rw [hlead]
    exact reading?_eq_none_of_clash _ hclash hj hlength _
  · rw [hrule, hwritten] at hvalues
    obtain ⟨found, hfound, rfl⟩ :=
      parts?_shortRun_written hvalues hne hflush ((hunique after).mpr rfl) hshort
    rw [(hunique found).mp hfound]

end Shortest


/-! ## Loops over a range -/

/-- What follows the variable of a loop. -/
def forTail : Pattern :=
  space ++ (text "in" ++ (space ++ (something "range" ++ text ":")))

theorem rule_for :
    rules[7] = ⟨Catalog.entry "for",
      text "for" ++ space ++ (parameter "variable" (shortRun isInline) ++ forTail)⟩ := rfl

theorem fits_forTail : Fits forTail parts cs ↔ ∃ before after range, before ≠ [] ∧
    (∀ c ∈ before, Text.isBlank c = true) ∧ after ≠ [] ∧ (∀ c ∈ after, Text.isBlank c = true) ∧
      range ≠ [] ∧ (∀ c ∈ range, isInline c = true) ∧ parts = [("range", range)] ∧
      cs = before ++ 'i' :: 'n' :: (after ++ (range ++ [':'])) := by
  simp only [forTail, something, fits_space_append, fits_text_append, fits_parameter_append, fits_run,
    fits_text]
  constructor
  · rintro ⟨before, _, hbefore, hblanks, rfl, _, rfl, after, _, hafter, hblanks', rfl, _, range, _, _,
      ⟨rfl, hne, hinline⟩, rfl, rfl, rfl, rfl⟩
    exact ⟨before, after, range, hbefore, hblanks, hafter, hblanks', hne, hinline, rfl, rfl⟩
  · rintro ⟨before, after, range, hbefore, hblanks, hafter, hblanks', hne, hinline, rfl, rfl⟩
    exact ⟨before, _, hbefore, hblanks, rfl, _, rfl, after, _, hafter, hblanks', rfl, _, range, _, _,
      ⟨rfl, hne, hinline⟩, rfl, rfl, rfl, rfl⟩

theorem fits_forTail_written {range : List Char} (hne : range ≠ [])
    (hinline : ∀ c ∈ range, isInline c = true) (hflush : Text.Flush range) :
    Fits forTail parts (' ' :: 'i' :: 'n' :: ' ' :: (range ++ [':'])) ↔ parts = [("range", range)] := by
  rw [fits_forTail]
  constructor
  · rintro ⟨before, after, found, hbefore, hblanks, hafter, hblanks', -, -, rfl, hsame⟩
    obtain ⟨-, hsame⟩ := Text.eq_singleton_of_blanks_append hbefore hblanks
      (Text.flush_cons.mpr (by decide)) hsame.symm
    obtain ⟨-, hsame⟩ := Text.eq_singleton_of_blanks_append hafter hblanks' (hflush.append hne _)
      (List.cons.inj (List.cons.inj hsame).2).2
    rw [List.append_cancel_right hsame]
  · rintro rfl
    exact ⟨[' '], [' '], range, by simp, by decide, by simp, by decide, hne, hinline, rfl, rfl⟩

/-- If the end of a variable and what is written after it is the end of a loop, so is the end of the
    variable with what stood after it. -/
theorem exists_fits_forTail {v rest blanks range : List Char} (hne : v ≠ []) (hend : Text.Flush v.reverse)
    (hv : ∀ c ∈ v, isInline c = true) (hblanks : blanks ≠ []) (hall : ∀ c ∈ blanks, Text.isBlank c = true)
    (hrange : ∀ c ∈ blanks ++ range, isInline c = true) (hrange' : range ≠ [])
    (h : Fits forTail parts (v ++ ' ' :: rest)) :
    ∃ parts, Fits forTail parts (v ++ (blanks ++ (range ++ [':']))) := by
  obtain ⟨before, after, found, hbefore, hallBefore, hafter, hallAfter, -, -, -, hsame⟩ := fits_forTail.mp h
  -- The end of the variable has something besides blanks: `w`, behind the blanks `c`.
  obtain ⟨c, hc, hcut⟩ := Text.exists_blanks_dropBlanks v
  have hflush := Text.flush_dropBlanks v
  have hw : Text.dropBlanks v ≠ [] := by
    intro hnil
    rw [hnil, List.append_nil] at hcut
    exact Text.trimChars_ne_nil hne hend (Text.trimChars_blanks (hcut ▸ hc))
  generalize Text.dropBlanks v = w at hcut hflush hw
  subst hcut
  rw [List.append_assoc] at hsame
  obtain ⟨rfl, hword⟩ := Text.append_inj_of_class hc hallBefore (hflush.append hw _)
    (by rintro c ⟨⟩; decide) hsame
  -- The word between the blanks begins in the variable, so it ends there as well.
  cases w with
  | nil => exact absurd rfl hw
  | cons d w =>
      obtain ⟨rfl, hsecond⟩ := List.cons.inj hword
      cases w with
      | nil => exact absurd (List.cons.inj hsecond).1 (by decide)
      | cons d w =>
          obtain ⟨rfl, hthird⟩ := List.cons.inj hsecond
          cases w with
          | nil =>
              refine ⟨[("range", range)], fits_forTail.mpr ⟨c, blanks, range, hbefore, hallBefore, hblanks,
                hall, hrange', fun d hd => hrange d (List.mem_append_right _ hd), rfl, ?_⟩⟩
              simp
          | cons d w =>
              obtain ⟨b, after, rfl⟩ := List.exists_cons_of_ne_nil hafter
              obtain ⟨rfl, -⟩ := List.cons.inj hthird
              refine ⟨[("range", w ++ (blanks ++ range))], fits_forTail.mpr ⟨c, [d], w ++ (blanks ++ range),
                hbefore, hallBefore, by simp, ?_, by simp [hrange'], ?_, rfl, by simp⟩⟩
              · intro c' hc'
                rw [List.mem_singleton.mp hc']
                exact hallAfter d List.mem_cons_self
              · intro c' hc'
                rcases List.mem_append.mp hc' with hc' | hc'
                · exact hv c' (by simp [hc'])
                · exact hrange c' hc'

theorem written_for (value range : List Char) :
    Reading.written ⟨Catalog.entry "for", [("variable", value), ("range", range)]⟩
      = "for".toList ++ ' ' :: (value ++ ' ' :: 'i' :: 'n' :: ' ' :: (range ++ [':'])) := by
  have hlays : Slot.Lays [⟨"for ", "variable", "i", none⟩, ⟨" in ", "range", "range(5)", none⟩] ":"
      (Catalog.entry "for").val := by decide +kernel
  rw [written_eq hlays]
  simp [Slot.text, List.lookup_cons]

/-- No shorter variable would do in what is written, since it would have done in the line. -/
theorem not_fits_forTail {part blanks range rest : List Char} (hblanks : blanks ≠ [])
    (hall : ∀ c ∈ blanks, Text.isBlank c = true) (hrange : range ≠ [])
    (hinline : ∀ c ∈ part ++ (blanks ++ range), isInline c = true)
    (hshort : ∀ u v, part = u ++ v → u ≠ [] → v ≠ [] →
      ∀ parts, ¬Fits forTail parts (v ++ (blanks ++ (range ++ [':']))))
    {u v : List Char} (huv : Text.trimChars part = u ++ v) (hu : u ≠ []) (hv : v ≠ [])
    (parts : List (String × List Char)) : ¬Fits forTail parts (v ++ ' ' :: rest) := by
  intro hfits
  obtain ⟨before, after, hbefore, hafter, hcut⟩ := Text.exists_blanks_trimChars part
  rw [huv] at hcut
  have hend : Text.Flush v.reverse := by
    have hend := Text.flush_reverse_trimChars part
    rwa [huv, Text.flush_reverse_append hv] at hend
  have hallAfter : ∀ c ∈ after ++ blanks, Text.isBlank c = true :=
    fun c hc => (List.mem_append.mp hc).elim (hafter c) (hall c)
  have hinline' : ∀ c ∈ after ++ blanks ++ range, isInline c = true := by
    intro c hc
    refine hinline c ?_
    rw [hcut]
    simp only [List.mem_append] at hc ⊢
    tauto
  -- The blanks that were trimmed from the variable stand before the blanks that followed it.
  obtain ⟨found, hfound⟩ := exists_fits_forTail hv hend (fun c hc => hinline c (by simp [hcut, hc]))
    (by simp [hblanks]) hallAfter hinline' hrange hfits
  refine hshort (before ++ u) (v ++ after) ?_ (by simp [hu]) (by simp [hv]) found ?_
  · rw [hcut]
    simp
  · simpa using hfound

theorem stable_for (hline : ∀ c ∈ line, isInline c = true) (h : rules[7].reading? line = some r)
    (hvalues : ∀ v ∈ r.values, v.2 ≠ []) : r.Stable := by
  obtain ⟨values, hparts, rfl⟩ := Option.map_eq_some_iff.mp h
  rw [rule_for] at hparts
  obtain ⟨_, after, head, part, rest, rfl, hlead, hpart, hinline, htail, rfl, hshort⟩ :=
    parts?_shortRun hparts
  obtain ⟨_, -, -, rfl, -⟩ := fits_lead.mp hlead
  obtain ⟨blanks, blanks', range, hblanks, hall, hblanks', -, hrange, hinlineRange, rfl, rfl⟩ :=
    fits_forTail.mp htail
  rw [List.nil_append] at hvalues ⊢
  have hvariable : Text.trimChars part ≠ [] := hvalues _ List.mem_cons_self
  have hne : Text.trimChars range ≠ [] := hvalues _ (List.mem_cons_of_mem _ List.mem_cons_self)
  have hwritten : Reading.written ⟨rules[7].block, trimmed [("variable", part), ("range", range)]⟩ = _ :=
    written_for (Text.trimChars part) (Text.trimChars range)
  have hunique : ∀ found, Fits forTail found
      (' ' :: 'i' :: 'n' :: ' ' :: (Text.trimChars range ++ [':'])) ↔
        found = [("range", Text.trimChars range)] :=
    fun found => fits_forTail_written hne (fun c hc => hinlineRange c (Text.mem_of_mem_trimChars hc))
      (Text.flush_trimChars range)
  refine Reading.stable_of_shortest "for" (by decide) rfl
    (congrArg (fun rule : Rule => rule.pattern.parts? _) rule_for) (by decide)
    (Text.flush_cons.mpr (by decide)) hvariable (Text.flush_trimChars part) hwritten ?_ ?_ hunique
    (fun u v huv hu hv => ?_) ?_
  · rw [hwritten]
    simp [Text.Flush]
  · have hpattern : rules[7].pattern
        = text "for" ++ space ++ (parameter "variable" (shortRun isInline) ++ forTail) := rfl
    rw [hwritten, List.append_cons, hpattern]
    exact fits_append.mpr ⟨[], _, _, _, rfl, rfl, fits_lead.mpr ⟨[' '], by simp, by decide, rfl, rfl⟩,
      fits_parameter_append.mpr ⟨[], _, _, _, fits_shortRun.mpr ⟨rfl, hvariable,
        fun c hc => hinline c (Text.mem_of_mem_trimChars hc)⟩, rfl, rfl, (hunique _).mpr rfl⟩⟩
  · have hrest : 'i' :: 'n' :: (blanks' ++ (range ++ [':'])) = 'i' :: 'n' :: (blanks' ++ range) ++ [':'] := by
      simp
    rw [hrest] at hshort
    refine not_fits_forTail hblanks hall (by simp) (fun c hc => ?_) hshort huv hu hv
    refine hline c ?_
    simp only [List.mem_append, List.mem_cons] at hc ⊢
    tauto
  · simp only [trimmed_cons, trimmed_nil, Text.trimChars_trimChars]

/-! ## Exceptions -/

/-- What follows the exception. -/
def exceptTail : Pattern :=
  perhaps (renamed "variable") ++ (gap ++ text ":")

theorem fits_exceptTail : Fits exceptTail parts cs ↔
    (∃ before after short blanks, before ≠ [] ∧ (∀ c ∈ before, Text.isBlank c = true) ∧ after ≠ [] ∧
      (∀ c ∈ after, Text.isBlank c = true) ∧ short ≠ [] ∧ (∀ c ∈ short, Text.isWord c = true) ∧
      (∀ c ∈ blanks, Text.isBlank c = true) ∧ parts = [("variable", short)] ∧
      cs = before ++ 'a' :: 's' :: (after ++ (short ++ (blanks ++ [':'])))) ∨
    ∃ blanks, (∀ c ∈ blanks, Text.isBlank c = true) ∧ parts = [] ∧ cs = blanks ++ [':'] := by
  simp only [exceptTail, renamed, identifier, fits_perhaps_append, List.append_assoc, fits_space_append,
    fits_text_append, fits_parameter_append, fits_run, fits_gap_append, fits_text]
  refine or_congr ⟨?_, ?_⟩ ⟨?_, ?_⟩
  · rintro ⟨before, _, hbefore, hall, rfl, _, rfl, after, _, hafter, hall', rfl, _, short, _, _,
      ⟨rfl, hne, hword⟩, rfl, rfl, blanks, _, hblanks, rfl, rfl, rfl⟩
    exact ⟨before, after, short, blanks, hbefore, hall, hafter, hall', hne, hword, hblanks, rfl, rfl⟩
  · rintro ⟨before, after, short, blanks, hbefore, hall, hafter, hall', hne, hword, hblanks, rfl, rfl⟩
    exact ⟨before, _, hbefore, hall, rfl, _, rfl, after, _, hafter, hall', rfl, _, short, _, _,
      ⟨rfl, hne, hword⟩, rfl, rfl, blanks, _, hblanks, rfl, rfl, rfl⟩
  · rintro ⟨blanks, _, hblanks, rfl, rfl, rfl⟩
    exact ⟨blanks, hblanks, rfl, rfl⟩
  · rintro ⟨blanks, hblanks, rfl, rfl⟩
    exact ⟨blanks, _, hblanks, rfl, rfl, rfl⟩

theorem wrapped_as {short : List Char} (hne : short ≠ []) :
    wrapped " as " "" short = ' ' :: 'a' :: 's' :: ' ' :: short := by
  rw [wrapped, if_neg hne]
  simp

theorem fits_exceptTail_written {short : List Char} (hshort : ∀ c ∈ short, Text.isWord c = true) :
    Fits exceptTail parts (wrapped " as " "" short ++ [':']) ↔ parts = optionalPart "variable" short := by
  rw [fits_exceptTail, optionalPart]
  by_cases hnil : short = []
  · rw [if_pos hnil, wrapped, if_pos hnil, List.nil_append]
    constructor
    · rintro (⟨before, _, _, _, hne, hall, -, -, -, -, -, -, hsame⟩ | ⟨blanks, -, rfl, -⟩)
      · have hcolon : Text.Flush [':'] := Text.flush_cons.mpr (by decide)
        exact absurd (Text.eq_nil_of_blanks_append hall hcolon hsame.symm).1 hne
      · rfl
    · rintro rfl
      exact Or.inr ⟨[], by simp, rfl, rfl⟩
  · have hflush : Text.Flush short :=
      fun c hc => Text.isBlank_eq_false_of_isWord (hshort c (List.mem_of_mem_head? hc))
    have hword : Text.Flush ('a' :: 's' :: ' ' :: (short ++ [':'])) := Text.flush_cons.mpr (by decide)
    rw [if_neg hnil, wrapped_as hnil]
    constructor
    · rintro (⟨before, after, found, blanks, hne, hall, hne', hall', -, hfound, hblanks, rfl, hsame⟩ |
        ⟨blanks, hblanks, -, hsame⟩)
      · obtain ⟨-, hsame⟩ := Text.eq_singleton_of_blanks_append hne hall hword hsame.symm
        obtain ⟨-, hsame⟩ := Text.eq_singleton_of_blanks_append hne' hall' (hflush.append hnil _)
          (List.cons.inj (List.cons.inj hsame).2).2
        obtain ⟨rfl, -⟩ := Text.append_inj_of_class hfound hshort
          (Text.head_blanks_append (fun c => Text.isWord_eq_false_of_isBlank) hblanks
            (by rintro c ⟨⟩; decide))
          (by rintro c ⟨⟩; decide) hsame
        rfl
      · cases blanks with
        | nil => cases hsame
        | cons b blanks =>
            obtain ⟨-, hsame⟩ :=
              Text.eq_singleton_of_blanks_append (List.cons_ne_nil _ _) hblanks hword hsame.symm
            cases hsame
    · rintro rfl
      exact Or.inl ⟨[' '], [' '], short, [], by simp, by decide, by simp, by decide, hnil, hshort,
        by simp, rfl, rfl⟩

/-- The variable that is found is the one that is written, so what stands before it is the end of the
    exception and one blank. -/
theorem lead_of_wrapped_as {v short before after found blanks : List Char} (hnil : short ≠ [])
    (hshort : ∀ c ∈ short, Text.isWord c = true) (hafter : after ≠ [])
    (hall : ∀ c ∈ after, Text.isBlank c = true)
    (hword : ∀ c ∈ found, Text.isWord c = true) (hblanks : ∀ c ∈ blanks, Text.isBlank c = true)
    (h : v ++ ' ' :: 'a' :: 's' :: ' ' :: short
      = before ++ 'a' :: 's' :: (after ++ (found ++ blanks))) :
    v ++ [' '] = before := by
  have hend : Text.Flush (before ++ 'a' :: 's' :: (after ++ (found ++ blanks))).reverse := by
    rw [← h, Text.flush_reverse_append (by simp)]
    simp only [List.reverse_cons, List.append_assoc]
    exact (Text.flush_reverse_of_forall fun c hc =>
      Text.isBlank_eq_false_of_isWord (hshort c hc)).append (by simpa using hnil) _
  -- The line ends with a word, so no blanks follow the variable that was found.
  have hsplit : before ++ 'a' :: 's' :: (after ++ (found ++ blanks))
      = before ++ 'a' :: 's' :: (after ++ found) ++ blanks := by simp
  have hnone : blanks = [] := Text.eq_nil_of_flush_reverse hblanks (hsplit ▸ hend)
  obtain ⟨init, b, rfl⟩ : ∃ init b, after = init ++ [b] :=
    ⟨_, _, (List.dropLast_append_getLast hafter).symm⟩
  -- From the end of the line: first the word, then the blanks, then the two letters.
  have hb : Text.isWord b = false := Text.isWord_eq_false_of_isBlank (hall b (by simp))
  have hwords : (v ++ [' ', 'a', 's', ' ']) ++ short
      = (before ++ 'a' :: 's' :: (init ++ [b])) ++ found := by
    simpa [hnone] using h
  obtain ⟨hlead, -⟩ := Text.append_inj_of_class_reverse hshort hword (by simp; decide)
    (by simpa using hb) hwords
  have hgaps : (v ++ [' ', 'a', 's']) ++ [' '] = (before ++ ['a', 's']) ++ (init ++ [b]) := by
    simpa using hlead
  have hletter : ∀ cs : List Char, ∀ c ∈ (cs ++ ['a', 's']).reverse.head?, Text.isBlank c = false := by
    intro cs
    rw [List.reverse_append]
    rintro c ⟨⟩
    decide
  obtain ⟨hletters, -⟩ := Text.append_inj_of_class_reverse (by simp; decide) hall
    (by simpa using hletter (v ++ [' '])) (hletter before) hgaps
  refine (List.append_left_inj ['a', 's']).mp ?_
  simpa using hletters

/-- The end of an exception and what is written after it do not make up another variable; if no variable
    is written after it, they may be one, but then they were one in the line. -/
theorem exists_fits_exceptTail {v short : List Char} (hne : v ≠ []) (hend : Text.Flush v.reverse)
    (hshort : ∀ c ∈ short, Text.isWord c = true)
    (h : Fits exceptTail parts (v ++ (wrapped " as " "" short ++ [':']))) :
    short = [] ∧ ∀ blanks, (∀ c ∈ blanks, Text.isBlank c = true) →
      ∃ parts, Fits exceptTail parts (v ++ (blanks ++ [':'])) := by
  have hblank : ¬∀ c ∈ v, Text.isBlank c = true :=
    fun hall => Text.trimChars_ne_nil hne hend (Text.trimChars_blanks hall)
  rcases fits_exceptTail.mp h with
    ⟨before, after, found, blanks, hbefore, hall, hafter, hall', hfound, hword, hblanks, -, hsame⟩ |
    ⟨blanks, hblanks, -, hsame⟩
  · have hcancel : v ++ wrapped " as " "" short
        = before ++ 'a' :: 's' :: (after ++ (found ++ blanks)) := by
      refine (List.append_left_inj [':']).mp ?_
      simpa using hsame
    by_cases hnil : short = []
    · -- The variable that was found belongs to the exception, and did so in the line.
      rw [wrapped, if_pos hnil, List.append_nil] at hcancel
      refine ⟨hnil, fun more hmore => ⟨[("variable", found)], fits_exceptTail.mpr (Or.inl ?_)⟩⟩
      refine ⟨before, after, found, blanks ++ more, hbefore, hall, hafter, hall', hfound, hword, ?_,
        rfl, ?_⟩
      · exact fun c hc => (List.mem_append.mp hc).elim (hblanks c) (hmore c)
      · rw [hcancel]
        simp
    · rw [wrapped_as hnil] at hcancel
      have hv := lead_of_wrapped_as hnil hshort hafter hall' hword hblanks hcancel
      exact absurd (fun c hc => hall c (hv ▸ List.mem_append_left _ hc)) hblank
  · have hcancel : v ++ wrapped " as " "" short = blanks := by
      refine (List.append_left_inj [':']).mp ?_
      simpa using hsame
    exact absurd (fun c hc => hblanks c (hcancel ▸ List.mem_append_left _ hc)) hblank

theorem written_except {exception short : List Char} {after : List (String × List Char)}
    (hshort : Text.trimChars short = short)
    (hafter : after = [("variable", short)] ∨ after = [] ∧ short = []) :
    Reading.written ⟨Catalog.entry "except", ("exception", exception) :: after⟩
      = "except".toList ++ ' ' :: (exception ++ (wrapped " as " "" short ++ [':'])) := by
  have hlays : Slot.Lays [⟨"except ", "exception", "Exception", none⟩, ⟨"", "variable", "", some .asClause⟩]
      ":" (Catalog.entry "except").val := by decide +kernel
  exact written_shaped hlays apply_asClause (by decide) hshort hafter

/-- An exception with a variable is first of all an exception. -/
theorem eq_nil_of_fits_exceptTail
    (hnone : (text "except" ++
      (space ++ parameter "exception" (shortRun (isNone [':'])) ++ exceptTail)).parts?
        ("except".toList ++ cs) = none) (h : Fits exceptTail parts cs) : parts = [] := by
  rcases fits_exceptTail.mp h with
    ⟨before, after, short, blanks, hbefore, hall, -, hall', -, hword, hblanks, -, rfl⟩ | ⟨_, -, rfl, -⟩
  · have hcolon : ∀ c ∈ 'a' :: 's' :: (after ++ short), isNone [':'] c = true := by
      intro c hc
      have hne : c ≠ ':' := by
        rintro rfl
        rcases List.mem_append.mp (by simpa using hc) with hc | hc
        · exact absurd (hall' _ hc) (by decide)
        · exact absurd (hword _ hc) (by decide)
      simpa [isNone] using hne
    -- The variable with its keyword would do as the exception.
    have hfits : (text "except" ++
        (space ++ parameter "exception" (shortRun (isNone [':'])) ++ exceptTail)).Fits
        [("exception", 'a' :: 's' :: (after ++ short))]
        ("except".toList ++ (before ++ 'a' :: 's' :: (after ++ (short ++ (blanks ++ [':']))))) := by
      rw [fits_text_append, List.append_assoc]
      simp only [fits_space_append, fits_parameter_append, fits_shortRun, fits_exceptTail]
      exact ⟨_, rfl, before, _, hbefore, hall, rfl, [], 'a' :: 's' :: (after ++ short), [], blanks ++ [':'],
        ⟨rfl, by simp, hcolon⟩, rfl, by simp, Or.inr ⟨blanks, hblanks, rfl, rfl⟩⟩
    have hsome := hfits.isSome_parts?
    rw [hnone] at hsome
    exact absurd hsome Bool.false_ne_true
  · rfl

/-- The rule for an exception that is named. -/
def namedException : Pattern :=
  text "except" ++ space ++ (parameter "exception" (shortRun (isNone [':'])) ++ exceptTail)

theorem parts?_except (line : List Char) : rules[13].pattern.parts? line
    = (namedException.parts? line).or ((text "except" ++ exceptTail).parts? line) :=
  parts?_perhaps "except" (space ++ parameter "exception" (shortRun (isNone [':']))) exceptTail line

theorem fits_namedException {exception rest : List Char} {after : List (String × List Char)}
    (hne : exception ≠ []) (hcolon : ∀ c ∈ exception, isNone [':'] c = true)
    (htail : Fits exceptTail after rest) :
    namedException.Fits (("exception", exception) :: after)
      ("except".toList ++ ' ' :: (exception ++ rest)) := by
  rw [List.append_cons]
  exact fits_append.mpr ⟨[], _, _, _, rfl, rfl, fits_lead.mpr ⟨[' '], by simp, by decide, rfl, rfl⟩,
    fits_parameter_append.mpr ⟨[], _, _, _, fits_shortRun.mpr ⟨rfl, hne, hcolon⟩, rfl, rfl, htail⟩⟩

theorem fits_except_of_named (h : namedException.Fits parts cs) : rules[13].pattern.Fits parts cs := by
  obtain ⟨rest, rfl, hrest⟩ := fits_text_append.mp h
  exact fits_text_append.mpr ⟨rest, rfl, fits_perhaps_append.mpr (Or.inl hrest)⟩

/-- No shorter exception would do in what is written, since it would have done in the line. -/
theorem not_fits_exceptTail {part rest short : List Char} (hshortWord : ∀ c ∈ short, Text.isWord c = true)
    (hrest : short = [] → ∃ blanks, (∀ c ∈ blanks, Text.isBlank c = true) ∧ rest = blanks ++ [':'])
    (hshort : ∀ u v, part = u ++ v → u ≠ [] → v ≠ [] → ∀ parts, ¬Fits exceptTail parts (v ++ rest))
    {u v : List Char} (huv : Text.trimChars part = u ++ v) (hu : u ≠ []) (hv : v ≠ [])
    (parts : List (String × List Char)) :
    ¬Fits exceptTail parts (v ++ (wrapped " as " "" short ++ [':'])) := by
  intro hfits
  obtain ⟨before, after, -, hafter, hcut⟩ := Text.exists_blanks_trimChars part
  rw [huv] at hcut
  have hend : Text.Flush v.reverse := by
    have hend := Text.flush_reverse_trimChars part
    rwa [huv, Text.flush_reverse_append hv] at hend
  obtain ⟨hnil, hmore⟩ := exists_fits_exceptTail hv hend hshortWord hfits
  obtain ⟨blanks, hblanks, rfl⟩ := hrest hnil
  obtain ⟨found, hfound⟩ := hmore (after ++ blanks)
    fun c hc => (List.mem_append.mp hc).elim (hafter c) (hblanks c)
  refine hshort (before ++ u) (v ++ after) ?_ (by simp [hu]) (by simp [hv]) found ?_
  · rw [hcut]
    simp
  · simpa using hfound

/-- What follows an exception has a variable, or there are only blanks before the colon. -/
theorem exists_of_fits_exceptTail (h : Fits exceptTail parts cs) :
    ∃ short : List Char, (∀ c ∈ short, Text.isWord c = true) ∧
      (parts = [("variable", short)] ∨ parts = [] ∧ short = []) ∧
      (short = [] → ∃ blanks, (∀ c ∈ blanks, Text.isBlank c = true) ∧ cs = blanks ++ [':']) := by
  rcases fits_exceptTail.mp h with
    ⟨_, _, short, _, -, -, -, -, hnil, hword, -, rfl, -⟩ | ⟨blanks, hblanks, rfl, rfl⟩
  · exact ⟨short, hword, Or.inl rfl, fun h => absurd h hnil⟩
  · exact ⟨[], by simp, Or.inr ⟨rfl, rfl⟩, fun _ => ⟨blanks, hblanks, rfl⟩⟩

/-- An exception that is named comes back with the variable that it had. -/
theorem stable_namedException {part rest : List Char} {after : List (String × List Char)}
    (hne : Text.trimChars part ≠ []) (hcolon : ∀ c ∈ part, isNone [':'] c = true)
    (htail : Fits exceptTail after rest)
    (hshortest : ∀ u v, part = u ++ v → u ≠ [] → v ≠ [] → ∀ parts, ¬Fits exceptTail parts (v ++ rest)) :
    Reading.Stable ⟨rules[13].block, trimmed (("exception", part) :: after)⟩ := by
  have hcolonTrim : ∀ c ∈ Text.trimChars part, isNone [':'] c = true :=
    fun c hc => hcolon c (Text.mem_of_mem_trimChars hc)
  obtain ⟨short, hword, hafter, hrest⟩ := exists_of_fits_exceptTail htail
  have htrim : Text.trimChars short = short := Text.trimChars_of_isWord hword
  have hafterTrim : trimmed after = after := by
    rcases hafter with rfl | ⟨rfl, -⟩
    · rw [trimmed_cons, htrim, trimmed_nil]
    · rfl
  have hwritten : Reading.written ⟨rules[13].block, trimmed (("exception", part) :: after)⟩
      = "except".toList ++ ' ' :: (Text.trimChars part ++ (wrapped " as " "" short ++ [':'])) := by
    rw [trimmed_cons, hafterTrim]
    exact written_except htrim hafter
  have hunique : ∀ found, Fits exceptTail found (wrapped " as " "" short ++ [':']) ↔
      found = optionalPart "variable" short := fun found => fits_exceptTail_written hword
  have hfits := fits_namedException hne hcolonTrim ((hunique _).mpr rfl)
  have hrule : rules[13].pattern.parts?
        (Reading.written ⟨rules[13].block, trimmed (("exception", part) :: after)⟩)
      = namedException.parts?
          (Reading.written ⟨rules[13].block, trimmed (("exception", part) :: after)⟩) := by
    rw [hwritten, parts?_except]
    exact Option.or_of_isSome hfits.isSome_parts?
  refine Reading.stable_of_shortest "except" (by decide) rfl hrule (by decide)
    (Text.flush_cons.mpr (by decide)) hne (Text.flush_trimChars part) hwritten ?_ ?_ hunique
    (fun u v huv hu hv => not_fits_exceptTail hword hrest hshortest huv hu hv) ?_
  · rw [hwritten]
    simp [Text.Flush]
  · rw [hwritten]
    exact fits_except_of_named hfits
  · rw [hwritten, trimmed_cons, Text.trimChars_trimChars, trimmed_optionalPart htrim]
    exact written_except htrim (optionalPart_cases _ _)

theorem stable_except (h : rules[13].reading? line = some r) (hvalues : ∀ v ∈ r.values, v.2 ≠ []) :
    r.Stable := by
  obtain ⟨values, hparts, rfl⟩ := Option.map_eq_some_iff.mp h
  rw [parts?_except, Option.or_eq_some_iff] at hparts
  rcases hparts with hparts | ⟨hnone, hparts⟩
  · obtain ⟨_, after, head, part, rest, rfl, hlead, hpart, hcolon, htail, rfl, hshortest⟩ :=
      parts?_shortRun hparts
    obtain ⟨_, -, -, rfl, -⟩ := fits_lead.mp hlead
    rw [List.nil_append] at hvalues ⊢
    exact stable_namedException (hvalues _ List.mem_cons_self) hcolon htail hshortest
  · obtain ⟨found, hfits, rfl⟩ := exists_fits hparts
    obtain ⟨rest, rfl, htail⟩ := fits_text_append.mp hfits
    rw [eq_nil_of_fits_exceptTail hnone htail]
    exact stable_bare "except" (by simp) _ rfl

end Blockwork.Source
