import Blockwork.Text.Blank

/-!
# `Blockwork.Source.Pattern`: shapes of single lines

A pattern is a sequence of pieces that together make up a whole line: fixed words, runs of
characters of a class, optional parts, and named parts whose text is wanted. Where a line can be
divided among the pieces in several ways, the earliest piece with a choice decides: a `many` takes
as much as it can, a `few` as little as it can, and an optional part is present if possible.

## Contents
- `Span`, a part of a line, and `Piece`.
- `Piece.first?` and `Pattern.first?`, the search in order of preference.
- `Pattern.parts?`, the named parts of a line that fits.
-/

namespace Blockwork.Source

/-! ## Parts of a line -/

/-- The part of a line from where `start` begins up to where its ending `rest` begins. -/
structure Span where
  start : List Char
  rest : List Char

/-- The characters of a part. -/
def Span.text (s : Span) : List Char :=
  s.start.take (s.start.length - s.rest.length)

theorem Span.text_append (cs rest : List Char) : Span.text ⟨cs ++ rest, rest⟩ = cs := by
  simp [Span.text]

/-- Named parts, in the order in which they were found. -/
abbrev Parts := List (String × Span)

/-- What follows `lead` in a text that begins with it. -/
def after? : List Char → List Char → Option (List Char)
  | [], cs => some cs
  | _ :: _, [] => none
  | l :: lead, c :: cs => if l = c then after? lead cs else none

theorem after?_eq_some_iff {lead cs rest : List Char} :
    after? lead cs = some rest ↔ cs = lead ++ rest := by
  induction lead generalizing cs with
  | nil => simp [after?, eq_comm]
  | cons l lead ih =>
    cases cs with
    | nil => simp [after?]
    | cons c cs =>
      by_cases h : l = c
      · simp [after?, h, ih]
      · simp [after?, h, Ne.symm h]

/-! ## Pieces -/

/-- A piece of a pattern. -/
inductive Piece where
  /-- This text. -/
  | word (text : List Char)
  /-- One character of a class. -/
  | one (p : Char → Bool)
  /-- Any number of characters of a class, the more the better. -/
  | many (p : Char → Bool)
  /-- Any number of characters of a class, the fewer the better. -/
  | few (p : Char → Bool)
  /-- A sequence of pieces whose text is wanted. -/
  | named (name : String) (inner : List Piece)
  /-- A sequence of pieces that may be missing. -/
  | optional (inner : List Piece)

/-- A sequence of pieces. -/
abbrev Pattern := List Piece

/-! ## The search -/

variable {α : Type}

/-- The first answer of `next` on what is left after a run of characters of a class, longer runs
being tried first. -/
def firstAfterMany (p : Char → Bool) (next : List Char → Option α) : List Char → Option α
  | [] => next []
  | c :: cs =>
    if p c then
      match firstAfterMany p next cs with
      | some a => some a
      | none => next (c :: cs)
    else next (c :: cs)

/-- The first answer of `next` on what is left after a run of characters of a class, shorter runs
being tried first. -/
def firstAfterFew (p : Char → Bool) (next : List Char → Option α) : List Char → Option α
  | [] => next []
  | c :: cs =>
    match next (c :: cs) with
    | some a => some a
    | none => if p c then firstAfterFew p next cs else none

mutual

/-- The first answer of `next` on the parts found and what is left after one piece. -/
def Piece.first? : Piece → (Parts → List Char → Option α) → Parts → List Char → Option α
  | .word text, next, found, cs => (after? text cs).bind (next found)
  | .one p, next, found, cs =>
    match cs with
    | [] => none
    | c :: rest => if p c then next found rest else none
  | .many p, next, found, cs => firstAfterMany p (next found) cs
  | .few p, next, found, cs => firstAfterFew p (next found) cs
  | .named name inner, next, found, cs =>
    Pattern.first? inner (fun found rest => next (found ++ [(name, ⟨cs, rest⟩)]) rest) found cs
  | .optional inner, next, found, cs =>
    match Pattern.first? inner next found cs with
    | some a => some a
    | none => next found cs

/-- The first answer of `next` on the parts found and what is left after all pieces. -/
def Pattern.first? : Pattern → (Parts → List Char → Option α) → Parts → List Char → Option α
  | [], next, found, cs => next found cs
  | piece :: pieces, next, found, cs =>
    piece.first? (fun found rest => Pattern.first? pieces next found rest) found cs

end

/-- The parts found so far, if nothing is left. -/
def atEnd (found : Parts) : List Char → Option Parts
  | [] => some found
  | _ :: _ => none

/-- The named parts of a line that fits the pattern as a whole, without the blanks around them. A
part inside an optional sequence that is missing has no text. -/
def Pattern.parts? (pattern : Pattern) (line : List Char) : Option (List (String × List Char)) :=
  (Pattern.first? pattern atEnd [] line).map fun parts =>
    parts.map fun (name, span) => (name, Text.trimChars span.text)

end Blockwork.Source
