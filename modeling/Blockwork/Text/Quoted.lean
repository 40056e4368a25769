import Blockwork.Text.Hidden

/-!
# `Blockwork.Text.Quoted`: texts quoted in messages

A message shows a text in double quotes. Quotes and backslashes get a backslash, line breaks, tabs
and the null character their letters, and every other character without a visible form is shown by
its code.

## Contents
- `hexDigits`, a number in lower-case hexadecimal digits.
- `quoteChar`, `quote`.
-/

namespace Blockwork.Text

/-- `n` in lower-case hexadecimal digits. -/
def hexDigits (n : Nat) : List Char :=
  Nat.toDigits 16 n

/-- A character inside a quoted text. -/
def quoteChar (c : Char) : List Char :=
  if c = '\x00' then ['\\', '0']
  else if c = '\t' then ['\\', 't']
  else if c = '\r' then ['\\', 'r']
  else if c = '\n' then ['\\', 'n']
  else if c = '\\' ∨ c = '"' then ['\\', c]
  else if isHidden c then ['\\', 'u', '\x7b'] ++ hexDigits c.toNat ++ ['\x7d']
  else [c]

/-- A text in double quotes. -/
def quote (s : String) : String :=
  "\"" ++ String.ofList (s.toList.flatMap quoteChar) ++ "\""

end Blockwork.Text
