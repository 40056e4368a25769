/-!
# `Blockwork.Source.Template`: filling in templates

A placeholder is a name in braces, the name being ASCII letters, digits and underscores. Placeholders
with a value are replaced; everything else, stray braces included, is copied. Replaced text is not
read again.

## Contents
- `isNameChar`, `placeholder?`.
- `substituteChars` and `substitute`.
-/

namespace Blockwork.Source

/-- The characters of placeholder names. -/
def isNameChar (c : Char) : Bool :=
  c.isAlphanum || c == '_'

/-- The opening and the closing brace. -/
def openBrace : Char := '\x7b'
def closeBrace : Char := '\x7d'

/-- The name up to the closing brace that follows it, and what comes after the brace; `cs` is what
follows an opening brace. -/
def placeholder? (cs : List Char) : Option (List Char × List Char) :=
  match cs.dropWhile isNameChar with
  | [] => none
  | c :: rest =>
    let name := cs.takeWhile isNameChar
    if c = closeBrace ∧ name ≠ [] then some (name, rest) else none

theorem length_dropWhile_le {α : Type} (p : α → Bool) (xs : List α) :
    (xs.dropWhile p).length ≤ xs.length := by
  induction xs with
  | nil => simp
  | cons x xs ih =>
    simp only [List.dropWhile_cons]
    split
    · exact Nat.le_trans ih (by simp)
    · simp

theorem length_of_placeholder? {cs name rest : List Char} (h : placeholder? cs = some (name, rest)) :
    rest.length < cs.length := by
  simp only [placeholder?] at h
  split at h
  · cases h
  · rename_i c rest' heq
    split at h
    · cases h
      have := length_dropWhile_le isNameChar cs
      simp only [heq, List.length_cons] at this
      omega
    · cases h

/-- `template` with every placeholder that has a value replaced. -/
def substituteChars (value : String → Option String) : List Char → List Char
  | [] => []
  | c :: rest =>
    if c = openBrace then
      match _h : placeholder? rest with
      | some (name, after) =>
        match value (String.ofList name) with
        | some text => text.toList ++ substituteChars value after
        | none => openBrace :: substituteChars value rest
      | none => openBrace :: substituteChars value rest
    else c :: substituteChars value rest
termination_by cs => cs.length
decreasing_by
  · have := length_of_placeholder? _h
    simp only [List.length_cons]
    omega
  all_goals simp

/-- `template` with every placeholder that has a value replaced. -/
def substitute (value : String → Option String) (template : String) : String :=
  String.ofList (substituteChars value template.toList)

end Blockwork.Source
