import Blockwork.Json.Basic
import Blockwork.Number.Layout
import Blockwork.Text.Quoted

/-!
# `Blockwork.Json.Writer`: writing JSON texts

Two layouts: compact, without any blanks, and pretty, with one member or item per line and two
spaces per level, where an empty array or object stays on its line.

## Contents
- `escapeChar`, `writeText`, `Numeral.write`.
- `Json.compact` and `Json.pretty`.
-/

namespace Blockwork

/-! ## Scalars -/

namespace Json

/-- `n` in four hexadecimal digits, for `n` below 256. -/
def hex4 (n : Nat) : List Char :=
  let digits := Text.hexDigits n
  List.replicate (4 - digits.length) '0' ++ digits

/-- A character inside a text. -/
def escapeChar (c : Char) : List Char :=
  if c = '"' ∨ c = '\\' then ['\\', c]
  else if c = '\x08' then ['\\', 'b']
  else if c = '\t' then ['\\', 't']
  else if c = '\n' then ['\\', 'n']
  else if c = '\x0C' then ['\\', 'f']
  else if c = '\r' then ['\\', 'r']
  else if c.toNat < 0x20 then '\\' :: 'u' :: hex4 c.toNat
  else [c]

/-- A text. -/
def writeText (s : String) : String :=
  "\"" ++ String.ofList (s.toList.flatMap escapeChar) ++ "\""

end Json

/-- A number. -/
def Numeral.write : Numeral → String
  | natural n => toString n
  | negative n => "-" ++ toString n
  | real x => Layout.saved.write x

namespace Json

/-- A key. -/
def writeKey (key : Option String) : String :=
  writeText (key.getD "")

/-! ## Compact -/

mutual

/-- The tree without blanks. -/
def compact : Json → String
  | null => "null"
  | bool true => "true"
  | bool false => "false"
  | number n => n.write
  | text s => writeText s
  | array items => "[" ++ compactItems items ++ "]"
  | object members => "\x7b" ++ compactMembers members ++ "\x7d"
  | unreadable => "null"
  | broken => "null"

/-- The items, separated by commas. -/
def compactItems : List Json → String
  | [] => ""
  | [j] => compact j
  | j :: js => compact j ++ "," ++ compactItems js

/-- The members, separated by commas. -/
def compactMembers : List (Option String × Json) → String
  | [] => ""
  | [(key, j)] => writeKey key ++ ":" ++ compact j
  | (key, j) :: ms => writeKey key ++ ":" ++ compact j ++ "," ++ compactMembers ms

end

/-! ## Pretty -/

/-- A new line at a level. -/
def newLine (level : Nat) : String :=
  "\n" ++ String.ofList (List.replicate (2 * level) ' ')

mutual

/-- The tree inside a line at a level. -/
def prettyAt (level : Nat) : Json → String
  | array [] => "[]"
  | array items => "[" ++ prettyItems (level + 1) items ++ newLine level ++ "]"
  | object [] => "\x7b\x7d"
  | object members => "\x7b" ++ prettyMembers (level + 1) members ++ newLine level ++ "\x7d"
  | null => "null"
  | bool true => "true"
  | bool false => "false"
  | number n => n.write
  | text s => writeText s
  | unreadable => "null"
  | broken => "null"

/-- The items, each on a line of its own. -/
def prettyItems (level : Nat) : List Json → String
  | [] => ""
  | [j] => newLine level ++ prettyAt level j
  | j :: js => newLine level ++ prettyAt level j ++ "," ++ prettyItems level js

/-- The members, each on a line of its own. -/
def prettyMembers (level : Nat) : List (Option String × Json) → String
  | [] => ""
  | [(key, j)] => newLine level ++ writeKey key ++ ": " ++ prettyAt level j
  | (key, j) :: ms =>
    newLine level ++ writeKey key ++ ": " ++ prettyAt level j ++ "," ++ prettyMembers level ms

end

/-- The tree with one item or member per line. -/
def pretty (j : Json) : String :=
  prettyAt 0 j

end Json

end Blockwork
