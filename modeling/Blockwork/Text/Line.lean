/-!
# `Blockwork.Text.Line`: splitting a text into lines

A line ends at a line feed. The line feed, and one carriage return right before it, are not part
of the line; an empty line is not added after a final line feed.

## Contents
- `splitLines` on character lists and `lines` on texts.
- `startsWith`, `contains`: plain tests used on single lines.
-/

namespace Blockwork.Text

/-! ## Lines -/

/-- One line, given last character first, without the carriage return that ends it. -/
def closeLine : List Char → List Char
  | '\r' :: cs => cs.reverse
  | cs => cs.reverse

/-- The lines of `cs`, `current` being the line read so far, last character first. A text that
stops without a line feed keeps a carriage return at its end. -/
def splitLinesFrom (current : List Char) : List Char → List (List Char)
  | [] => if current.isEmpty then [] else [current.reverse]
  | '\n' :: cs => closeLine current :: splitLinesFrom [] cs
  | c :: cs => splitLinesFrom (c :: current) cs

/-- The lines of `cs`, in order. -/
def splitLines (cs : List Char) : List (List Char) :=
  splitLinesFrom [] cs

/-- The lines of `s`, in order. -/
def lines (s : String) : List String :=
  (splitLines s.toList).map String.ofList

/-! ## Tests on a line -/

/-- Whether `cs` begins with `lead`. -/
def startsWith (lead cs : List Char) : Bool :=
  lead.isPrefixOf cs

/-- Whether `part` occurs somewhere in `cs`. -/
def contains (part : List Char) : List Char → Bool
  | [] => part.isEmpty
  | c :: cs => startsWith part (c :: cs) || contains part cs

end Blockwork.Text
