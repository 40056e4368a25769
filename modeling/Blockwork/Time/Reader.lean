import Blockwork.Text.Blank
import Blockwork.Text.Digits
import Blockwork.Time.Timestamp

/-!
# `Blockwork.Time.Reader`: reading time stamps

A time stamp is a day, one of `T`, `t` or a space, a time of day and an offset. Numbers may have
fewer digits than usual and blanks before them; a year with a sign may have more than four digits.
The offset is `Z`, `UTC` in any case, or a sign with hours and minutes.

## Contents
- `TimestampError` with its `message`.
- `scanNumber` to `scanOffset`, each part's value with the rest of the text.
- `Timestamp.parse`.
-/

namespace Blockwork

/-- Why a text is no time stamp. -/
inductive TimestampError where
  | tooShort
  | invalid
  | outOfRange
  | trailing
  | impossible
  deriving DecidableEq, Repr

/-- The text of an error. -/
def TimestampError.message : TimestampError → String
  | .tooShort => "premature end of input"
  | .invalid => "input contains invalid characters"
  | .outOfRange => "input is out of range"
  | .trailing => "trailing input"
  | .impossible => "no possible date and time matching input"

namespace Timestamp

/-! ## Parts -/

/-- A number of one to `width` digits. -/
def scanNumber (width : Nat) (cs : List Char) : Except TimestampError (Nat × List Char) :=
  match cs with
  | [] => .error .tooShort
  | _ =>
    let digits := (cs.take width).takeWhile Char.isDigit
    if digits.isEmpty then .error .invalid
    else .ok (Text.digitsValue digits, cs.drop digits.length)

/-- A number of one or two digits between bounds, after blanks. -/
def scanField (low high : Nat) (cs : List Char) : Except TimestampError (Nat × List Char) := do
  let (n, rest) ← scanNumber 2 (Text.dropBlanks cs)
  if low ≤ n ∧ n ≤ high then return (n, rest) else throw .outOfRange

/-- A year, after blanks: up to four digits, or a sign and any number of digits. -/
def scanYear (cs : List Char) : Except TimestampError (Int × List Char) := do
  match Text.dropBlanks cs with
  | '-' :: ds =>
    let (n, rest) ← scanNumber ds.length ds
    if UInt32.size / 2 < n then throw .outOfRange else return (-(n : Int), rest)
  | '+' :: ds =>
    let (n, rest) ← scanNumber ds.length ds
    if UInt32.size / 2 ≤ n then throw .outOfRange else return ((n : Int), rest)
  | ds =>
    let (n, rest) ← scanNumber 4 ds
    return ((n : Int), rest)

/-- A mark, after blanks. -/
def scanMark (mark : Char) (cs : List Char) : Except TimestampError (Unit × List Char) :=
  match Text.dropBlanks cs with
  | [] => .error .tooShort
  | c :: rest => if c = mark then .ok ((), rest) else .error .invalid

/-- The mark between day and time. -/
def scanSeparator : List Char → Except TimestampError (Unit × List Char)
  | [] => .error .tooShort
  | c :: rest => if c = 'T' ∨ c = 't' ∨ c = ' ' then .ok ((), rest) else .error .invalid

/-- The fraction of a second in nanoseconds; digits after the ninth do not count. -/
def scanFraction : List Char → Except TimestampError (Nat × List Char)
  | '.' :: cs => do
    let (n, rest) ← scanNumber 9 cs
    return (n * Nat.pow 10 (9 - (cs.length - rest.length)), rest.dropWhile Char.isDigit)
  | cs => .ok (0, cs)

/-- Two digits. A single character that takes more than one byte is no digit. -/
def scanTwoDigits : List Char → Except TimestampError (Nat × List Char)
  | a :: b :: rest =>
    if a.isDigit ∧ b.isDigit then .ok (Text.digitsValue [a, b], rest) else .error .invalid
  | [a] => .error (if a.toNat < 0x80 then .tooShort else .invalid)
  | [] => .error .tooShort

/-- An offset in minutes, after its sign: hours, then minutes after any colons and blanks. -/
def scanHoursMinutes (cs : List Char) : Except TimestampError (Nat × List Char) := do
  let (hours, rest) ← scanTwoDigits cs
  let (minutes, rest) ← scanTwoDigits (rest.dropWhile fun c => c == ':' || Text.isBlank c)
  if 60 ≤ minutes then throw .outOfRange else return (60 * hours + minutes, rest)

/-- An offset in minutes. -/
def scanOffset (cs : List Char) : Except TimestampError (Int × List Char) :=
  if (String.ofList (cs.take 3)).toLower = "utc" then .ok (0, cs.drop 3)
  else
    match cs with
    | [] => .error .tooShort
    | c :: rest =>
      if c = 'Z' ∨ c = 'z' then .ok (0, rest)
      else if c = '+' then (scanHoursMinutes rest).map fun (n, after) => ((n : Int), after)
      else if c = '-' ∨ c = '\u2212' then
        (scanHoursMinutes rest).map fun (n, after) => (-(n : Int), after)
      else .error .invalid

/-! ## Time stamps -/

/-- The moment that a text denotes. -/
def parse (s : String) : Except TimestampError Timestamp := do
  let (year, cs) ← scanYear s.toList
  let (_, cs) ← scanMark '-' cs
  let (month, cs) ← scanField 1 12 cs
  let (_, cs) ← scanMark '-' cs
  let (day, cs) ← scanField 1 31 cs
  let (_, cs) ← scanSeparator cs
  let (hour, cs) ← scanField 0 23 cs
  let (_, cs) ← scanMark ':' cs
  let (minute, cs) ← scanField 0 59 cs
  let (_, cs) ← scanMark ':' cs
  let (second, cs) ← scanField 0 60 cs
  let (nano, cs) ← scanFraction cs
  let (offset, cs) ← scanOffset (Text.dropBlanks cs)
  if !(Text.dropBlanks cs).isEmpty then throw .trailing
  let some date := Date.of? year month day | throw .outOfRange
  if 1440 ≤ offset.natAbs then throw .outOfRange
  let clock := 3600 * hour + 60 * minute
  let moment? :=
    if second = 60 then ofLocal? date (clock + 59) (1000000000 + nano) offset
    else ofLocal? date (clock + second) nano offset
  match moment? with
  | some t => return t
  | none => throw .impossible

end Timestamp

end Blockwork
