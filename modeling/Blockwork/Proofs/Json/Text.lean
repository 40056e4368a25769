import Blockwork.Json.Reader
import Blockwork.Json.Writer
import Mathlib.Data.List.Forall2

/-!
# `Blockwork.Proofs.Json.Text`: texts are read back

A character that is written between quotes is read as one part, which is the character itself or, for
most control characters, the unit with its code. Such a unit is no half of a surrogate pair, so the
parts join to the characters that were written, whatever they were.

## Contents
- `Glyph.Denotes`, between a part and the character that it was written for.
- `scanText?_escapeChar` and `joinUnits_of_denotes`, the two steps of reading.
- `readText?_escaped`: a text is read back, and what follows it is left.
-/

namespace Blockwork.Json

/-- A part of a text that was written for a character: the character, or a control character's
    code. -/
inductive Glyph.Denotes : Glyph → Char → Prop where
  | char (c : Char) : Denotes (.char c) c
  | control {c : Char} (h : c.toNat < 0x20) : Denotes (.unit c.toNat) c

theorem hex4_of_lt : ∀ n < 0x20,
    hex4 n = ['0', '0', Nat.digitChar (n / 16), Nat.digitChar (n % 16)] ∧
      hexValue4? '0' '0' (Nat.digitChar (n / 16)) (Nat.digitChar (n % 16)) = some n := by
  decide

/-- A written character is read as one part. -/
theorem scanText?_escapeChar (done : List Glyph) (c : Char) (rest : List Char) :
    ∃ g, Glyph.Denotes g c ∧ scanText? done (escapeChar c ++ rest) = scanText? (g :: done) rest := by
  unfold escapeChar
  by_cases hquote : c = '"' ∨ c = '\\'
  · rw [if_pos hquote]
    refine ⟨.char c, .char c, ?_⟩
    rcases hquote with rfl | rfl <;> rfl
  rw [if_neg hquote]
  by_cases hbackspace : c = '\x08'
  · rw [if_pos hbackspace]
    exact ⟨.char c, .char c, by rw [hbackspace]; rfl⟩
  rw [if_neg hbackspace]
  by_cases htab : c = '\t'
  · rw [if_pos htab]
    exact ⟨.char c, .char c, by rw [htab]; rfl⟩
  rw [if_neg htab]
  by_cases hlineFeed : c = '\n'
  · rw [if_pos hlineFeed]
    exact ⟨.char c, .char c, by rw [hlineFeed]; rfl⟩
  rw [if_neg hlineFeed]
  by_cases hformFeed : c = '\x0C'
  · rw [if_pos hformFeed]
    exact ⟨.char c, .char c, by rw [hformFeed]; rfl⟩
  rw [if_neg hformFeed]
  by_cases hreturn : c = '\r'
  · rw [if_pos hreturn]
    exact ⟨.char c, .char c, by rw [hreturn]; rfl⟩
  rw [if_neg hreturn]
  by_cases hcontrol : c.toNat < 0x20
  · rw [if_pos hcontrol]
    obtain ⟨hhex, hvalue⟩ := hex4_of_lt c.toNat hcontrol
    refine ⟨.unit c.toNat, .control hcontrol, ?_⟩
    rw [hhex]
    show scanText? done ('\\' :: 'u' :: '0' :: '0' :: _ :: _ :: rest) = _
    rw [scanText?, hvalue]
  · rw [if_neg hcontrol]
    refine ⟨.char c, .char c, ?_⟩
    show scanText? done (c :: rest) = _
    rw [not_or] at hquote
    rw [scanText?.eq_def]
    simp [hquote.1, hquote.2, hcontrol]

theorem scanText?_escaped (done : List Glyph) (cs rest : List Char) :
    ∃ glyphs, List.Forall₂ Glyph.Denotes glyphs cs ∧
      scanText? done (cs.flatMap escapeChar ++ '"' :: rest) = some (done.reverse ++ glyphs, rest) := by
  induction cs generalizing done with
  | nil =>
      refine ⟨[], .nil, ?_⟩
      rw [List.append_nil]
      rfl
  | cons c cs ih =>
      obtain ⟨g, hg, hscan⟩ := scanText?_escapeChar done c (cs.flatMap escapeChar ++ '"' :: rest)
      obtain ⟨glyphs, hglyphs, hrest⟩ := ih (g :: done)
      refine ⟨g :: glyphs, .cons hg hglyphs, ?_⟩
      rw [List.flatMap_cons, List.append_assoc, hscan, hrest, List.reverse_cons, List.append_assoc]
      rfl

/-- The parts that were written for characters join to them: no control character is half of a
    surrogate pair. -/
theorem joinUnits_of_denotes {glyphs : List Glyph} {cs : List Char}
    (h : List.Forall₂ Glyph.Denotes glyphs cs) (done : List Char) :
    joinUnits done glyphs = some (done.reverse ++ cs) := by
  induction h generalizing done with
  | nil => rw [joinUnits, List.append_nil]
  | @cons g c glyphs cs hg _ ih =>
      have hnext : joinUnits (c :: done) glyphs = some (done.reverse ++ c :: cs) := by
        rw [ih, List.reverse_cons, List.append_assoc]
        rfl
      cases hg with
      | char => rw [joinUnits, hnext]
      | control hcontrol =>
          have hhigh : isHighSurrogate c.toNat = false := by
            simp only [isHighSurrogate, Bool.and_eq_false_iff, decide_eq_false_iff_not]
            omega
          have hlow : isLowSurrogate c.toNat = false := by
            simp only [isLowSurrogate, Bool.and_eq_false_iff, decide_eq_false_iff_not]
            omega
          rw [← hnext, joinUnits.eq_def]
          cases glyphs with
          | nil => simp [hhigh, hlow, Char.ofNat_toNat]
          | cons g' glyphs => cases g' <;> simp [hhigh, hlow, Char.ofNat_toNat]

/-- **A text is read back**, and reading stops after its closing quote. -/
theorem readText?_escaped (s : String) (rest : List Char) :
    readText? (s.toList.flatMap escapeChar ++ '"' :: rest) = some (some s, rest) := by
  obtain ⟨glyphs, hglyphs, hscan⟩ := scanText?_escaped [] s.toList rest
  have hjoin : (joinUnits [] glyphs).map String.ofList = some s := by
    rw [joinUnits_of_denotes hglyphs, Option.map_some, List.reverse_nil, List.nil_append,
      String.ofList_toList]
  rw [readText?, hscan, Option.map_some]
  show some ((joinUnits [] glyphs).map String.ofList, rest) = _
  rw [hjoin]

theorem toList_writeText (s : String) :
    (writeText s).toList = '"' :: (s.toList.flatMap escapeChar ++ ['"']) := by
  simp [writeText]

end Blockwork.Json
