import Blockwork.Json.Number

/-!
# `Blockwork.Json.Reader`: reading JSON texts

The reader answers the tree of a text and what follows it. Once the text stops being JSON, the leaf
`broken` stands at that place as the last item of every open array and object, and nothing is read
any more.

## Contents
- `isJsonBlank`, the four blanks between tokens.
- `scanText?`, texts with their escapes; `joinUnits`, surrogate pairs.
- `readValue`, `readItems`, `readMembers`; `Document` and `Document.read`.
-/

namespace Blockwork.Json

/-- The blanks between tokens. -/
def isJsonBlank (c : Char) : Bool :=
  c == ' ' || c == '\n' || c == '\t' || c == '\r'

/-- `cs` without its leading blanks. -/
def skipBlanks (cs : List Char) : List Char :=
  cs.dropWhile isJsonBlank

/-! ## Texts -/

/-- A part of a text: a character, or a UTF-16 unit given by its code. -/
inductive Glyph where
  | char (c : Char)
  | unit (n : Nat)

/-- The value of a hexadecimal digit. -/
def hexValue? (c : Char) : Option Nat :=
  if c.isDigit then some (c.toNat - '0'.toNat)
  else if 'a' ≤ c ∧ c ≤ 'f' then some (c.toNat - 'a'.toNat + 10)
  else if 'A' ≤ c ∧ c ≤ 'F' then some (c.toNat - 'A'.toNat + 10)
  else none

/-- The value of four hexadecimal digits. -/
def hexValue4? (a b c d : Char) : Option Nat := do
  return ((← hexValue? a) * 16 + (← hexValue? b)) * 256 + (← hexValue? c) * 16 + (← hexValue? d)

/-- The character that a letter after a backslash stands for. -/
def escaped? : Char → Option Char
  | '"' => some '"'
  | '\\' => some '\\'
  | '/' => some '/'
  | 'b' => some '\x08'
  | 'f' => some '\x0C'
  | 'n' => some '\n'
  | 'r' => some '\r'
  | 't' => some '\t'
  | _ => none

/-- The parts of a text up to its closing quote, and what follows; `done` are the parts read so far,
last one first, and the list is what follows them. -/
def scanText? (done : List Glyph) : List Char → Option (List Glyph × List Char)
  | [] => none
  | '"' :: rest => some (done.reverse, rest)
  | '\\' :: 'u' :: a :: b :: c :: d :: rest =>
    match hexValue4? a b c d with
    | some n => scanText? (.unit n :: done) rest
    | none => none
  | '\\' :: c :: rest =>
    match escaped? c with
    | some e => scanText? (.char e :: done) rest
    | none => none
  | c :: rest => if c.toNat < 0x20 then none else scanText? (.char c :: done) rest

/-- Whether a unit is the first half of a surrogate pair. -/
def isHighSurrogate (n : Nat) : Bool :=
  0xD800 ≤ n && n ≤ 0xDBFF

/-- Whether a unit is the second half of a surrogate pair. -/
def isLowSurrogate (n : Nat) : Bool :=
  0xDC00 ≤ n && n ≤ 0xDFFF

/-- The characters of a text; none if it has half a surrogate pair. The characters read so far are
`done`, last one first. -/
def joinUnits (done : List Char) : List Glyph → Option (List Char)
  | [] => some done.reverse
  | .char c :: rest => joinUnits (c :: done) rest
  | .unit h :: .unit l :: rest =>
    if isHighSurrogate h then
      if isLowSurrogate l then
        joinUnits (Char.ofNat (0x10000 + (h - 0xD800) * 0x400 + (l - 0xDC00)) :: done) rest
      else none
    else if isLowSurrogate h then none
    else joinUnits (Char.ofNat h :: done) (.unit l :: rest)
  | .unit n :: rest =>
    if isHighSurrogate n || isLowSurrogate n then none else joinUnits (Char.ofNat n :: done) rest

/-- The text at the beginning of `cs`, after its opening quote, and what follows. The text is none
if it has half a surrogate pair. -/
def readText? (cs : List Char) : Option (Option String × List Char) :=
  (scanText? [] cs).map fun (glyphs, after) => ((joinUnits [] glyphs).map String.ofList, after)

/-! ## Values -/

/-- The number at the beginning of `cs`. -/
def readNumber (cs : List Char) : Json × Option (List Char) :=
  match scanNumber? cs with
  | none => (broken, none)
  | some (t, rest) =>
    match t.numeral? with
    | some n => (number n, some rest)
    | none => (unreadable, some rest)

mutual

/-- The value at the beginning of `cs` and what follows it, nothing if the text is broken. -/
def readValue : Nat → List Char → Json × Option (List Char)
  | 0, _ => (broken, none)
  | fuel + 1, cs =>
    match skipBlanks cs with
    | 'n' :: 'u' :: 'l' :: 'l' :: rest => (null, some rest)
    | 't' :: 'r' :: 'u' :: 'e' :: rest => (bool true, some rest)
    | 'f' :: 'a' :: 'l' :: 's' :: 'e' :: rest => (bool false, some rest)
    | '"' :: rest =>
      match readText? rest with
      | none => (broken, none)
      | some (none, after) => (unreadable, some after)
      | some (some s, after) => (text s, some after)
    | '[' :: rest =>
      match skipBlanks rest with
      | ']' :: after => (array [], some after)
      | cs =>
        let (items, after) := readItems fuel cs
        (array items, after)
    | '\x7b' :: rest =>
      match skipBlanks rest with
      | '\x7d' :: after => (object [], some after)
      | cs =>
        let (members, after) := readMembers fuel cs
        (object members, after)
    | c :: rest => if c = '-' ∨ c.isDigit then readNumber (c :: rest) else (broken, none)
    | [] => (broken, none)

/-- The items up to the closing bracket, at least one, and what follows it. -/
def readItems : Nat → List Char → List Json × Option (List Char)
  | 0, _ => ([broken], none)
  | fuel + 1, cs =>
    match readValue fuel cs with
    | (j, none) => ([j], none)
    | (j, some rest) =>
      match skipBlanks rest with
      | ']' :: after => ([j], some after)
      | ',' :: more =>
        let (items, after) := readItems fuel more
        (j :: items, after)
      | _ => ([j, broken], none)

/-- The members up to the closing brace, at least one, and what follows it. -/
def readMembers : Nat → List Char → List (Option String × Json) × Option (List Char)
  | 0, _ => ([(none, broken)], none)
  | fuel + 1, cs =>
    match skipBlanks cs with
    | '"' :: rest =>
      match readText? rest with
      | none => ([(none, broken)], none)
      | some (key, rest) =>
        match skipBlanks rest with
        | ':' :: rest =>
          match readValue fuel rest with
          | (j, none) => ([(key, j)], none)
          | (j, some rest) =>
            match skipBlanks rest with
            | '\x7d' :: after => ([(key, j)], some after)
            | ',' :: more =>
              let (members, after) := readMembers fuel more
              ((key, j) :: members, after)
            | _ => ([(key, j), (none, broken)], none)
        | _ => ([(key, broken)], none)
    | _ => ([(none, broken)], none)

end

/-! ## Documents -/

/-- What was read of a whole text, and whether only blanks follow. -/
structure Document where
  root : Json
  closed : Bool

/-- Reads a text. Every step of the reader but the one to a value or an item uses up a character. -/
def Document.read (s : String) : Document :=
  let cs := s.toList
  match readValue (2 * cs.length + 2) cs with
  | (root, none) => ⟨root, false⟩
  | (root, some rest) => ⟨root, (skipBlanks rest).isEmpty⟩

end Blockwork.Json
