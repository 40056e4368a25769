import Blockwork.Source.Indent
import Mathlib.Data.List.TakeWhile

/-!
# `Blockwork.Proofs.Text.Line`: lines that were written one by one

A line without a line feed, written and ended with one, is the first line read back, up to a carriage
return at its end. What is asked of a line afterwards, its indentation and its text without blanks
around it, does not see that.

## Contents
- `decidableForallMemChar`: what holds of every character of a text is decided along the text.
- `splitLines_append`: the first line of a text.
- `trimChars_append_of_blank`, `trimChars_blanks_append`, and `trimChars_closeLine`.
- `indentWidth_spaces_append`, and `indentWidth_closeLine`.
-/

namespace Blockwork

namespace Text

/-- What is asked of every character of a text is decided by going through the text. It comes before
    the search through all characters, which the library would try first. -/
instance (priority := high) decidableForallMemChar {p : Char → Prop} [DecidablePred p]
    (cs : List Char) : Decidable (∀ c ∈ cs, p c) :=
  List.decidableBAll p cs

/-! ## The first line -/

theorem splitLinesFrom_append {line : List Char} (h : '\n' ∉ line) (current rest : List Char) :
    splitLinesFrom current (line ++ rest) = splitLinesFrom (line.reverse ++ current) rest := by
  induction line generalizing current with
  | nil => rfl
  | cons c line ih =>
      rw [List.mem_cons, not_or] at h
      rw [List.cons_append, splitLinesFrom, ih h.2, List.reverse_cons, List.append_assoc]
      · rfl
      · exact fun hc => h.1 hc.symm

theorem splitLines_append {line : List Char} (h : '\n' ∉ line) (rest : List Char) :
    splitLines (line ++ '\n' :: rest) = closeLine line.reverse :: splitLines rest := by
  rw [splitLines, splitLinesFrom_append h, splitLinesFrom, List.append_nil]
  rfl

/-- The end of a line takes a carriage return with it, and nothing else. -/
theorem closeLine_reverse (line : List Char) :
    line = closeLine line.reverse ++ ['\r'] ∨ closeLine line.reverse = line := by
  unfold closeLine
  split
  · rename_i cs hline
    refine Or.inl ?_
    rw [← List.reverse_reverse line, hline, List.reverse_cons]
  · exact Or.inr (List.reverse_reverse line)

/-! ## Trimming -/

theorem trimChars_append_of_blank (cs : List Char) {c : Char} (hc : isBlank c = true) :
    trimChars (cs ++ [c]) = trimChars cs := by
  unfold trimChars dropBlanks
  rw [List.dropWhile_append]
  cases hcs : cs.dropWhile isBlank with
  | nil => simp [hc]
  | cons d ds =>
      -- The blank at the end is the first one from behind.
      simp only [List.isEmpty_cons, Bool.false_eq_true, if_false]
      unfold dropBlanksEnd dropBlanks
      rw [List.reverse_append, List.reverse_singleton, List.singleton_append,
        List.dropWhile_cons_of_pos hc]

/-- Spaces are blank. -/
theorem isBlank_of_mem_spaces {n : Nat} : ∀ c ∈ List.replicate n ' ', isBlank c = true := by
  intro c hc
  rw [List.eq_of_mem_replicate hc]
  decide

theorem trimChars_blanks_append {blanks : List Char} (h : ∀ c ∈ blanks, isBlank c = true)
    (cs : List Char) : trimChars (blanks ++ cs) = trimChars cs := by
  unfold trimChars dropBlanks
  rw [List.dropWhile_append_of_pos h]

theorem trimChars_closeLine (line : List Char) :
    trimChars (closeLine line.reverse) = trimChars line := by
  rcases closeLine_reverse line with h | h
  · have htrim := trimChars_append_of_blank (closeLine line.reverse) (c := '\r') (by decide)
    rw [← h] at htrim
    exact htrim.symm
  · rw [h]

end Text

namespace Source

/-! ## Indentation -/

theorem indentWidth_spaces_append (n : Nat) {c : Char} (hc : Text.isBlank c = false)
    (cs : List Char) : indentWidth (List.replicate n ' ' ++ c :: cs) = n := by
  have hspaces : ∀ d ∈ List.replicate n ' ', Text.isBlank d = true := Text.isBlank_of_mem_spaces
  unfold indentWidth
  rw [List.takeWhile_append_of_pos hspaces, List.takeWhile_cons_of_neg (by simp [hc]),
    List.append_nil]
  induction n with
  | zero => rfl
  | succ n ih =>
      rw [List.replicate_succ, List.foldr_cons, ih]
      · exact Nat.add_comm 1 n
      · exact fun d hd => hspaces d (List.mem_cons_of_mem _ hd)

/-- A line that is not blank has the same indentation without a carriage return at its end. -/
theorem indentWidth_closeLine {line : List Char} {c : Char} (hmem : c ∈ line)
    (hc : Text.isBlank c = false) :
    indentWidth (Text.closeLine line.reverse) = indentWidth line := by
  rcases Text.closeLine_reverse line with h | h
  · have hmem' : c ∈ Text.closeLine line.reverse := by
      rw [h, List.mem_append, List.mem_singleton] at hmem
      rcases hmem with hmem | rfl
      · exact hmem
      · exact absurd hc (by decide)
    have hlen : ((Text.closeLine line.reverse).takeWhile Text.isBlank).length
        ≠ (Text.closeLine line.reverse).length := by
      intro hlen
      have hall := (List.takeWhile_prefix _).eq_of_length hlen
      rw [List.takeWhile_eq_self_iff] at hall
      exact absurd (hall c hmem') (by simp [hc])
    have hwidth : indentWidth (Text.closeLine line.reverse ++ ['\r'])
        = indentWidth (Text.closeLine line.reverse) := by
      unfold indentWidth
      rw [List.takeWhile_append, if_neg hlen]
    rw [← h] at hwidth
    exact hwidth.symm
  · rw [h]

end Source

end Blockwork
