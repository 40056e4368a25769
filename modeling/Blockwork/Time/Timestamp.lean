/-!
# `Blockwork.Time.Timestamp`: moments in universal time

A moment is a day of the Gregorian calendar, a second of that day and a fraction in nanoseconds. A
leap second is the second before it with a fraction of one whole second or more.

## Contents
- `Date`, the days from the year -262143 to 262142, with `next?` and `previous?`.
- `Timestamp` with `ofLocal?`, the moment shown by a clock with an offset, and `sinceEpoch`.
- `Timestamp.max` and `Timestamp.write`.
-/

namespace Blockwork

/-! ## Days -/

namespace Calendar

/-- Whether a year has a 29th of February. -/
def isLeap (year : Int) : Bool :=
  year % 4 == 0 && (year % 100 != 0 || year % 400 == 0)

/-- How many days a month has. -/
def daysIn (year : Int) (month : Nat) : Nat :=
  if month = 2 then if isLeap year then 29 else 28
  else if month = 4 ∨ month = 6 ∨ month = 9 ∨ month = 11 then 30
  else 31

end Calendar

/-- A day. -/
structure Date where
  year : Int
  month : Nat
  day : Nat
  yearBounds : -262143 ≤ year ∧ year ≤ 262142
  monthBounds : 1 ≤ month ∧ month ≤ 12
  dayBounds : 1 ≤ day ∧ day ≤ Calendar.daysIn year month
  deriving DecidableEq

namespace Date

/-- The day with a given number, if there is one. -/
def of? (year : Int) (month day : Nat) : Option Date :=
  if hy : -262143 ≤ year ∧ year ≤ 262142 then
    if hm : 1 ≤ month ∧ month ≤ 12 then
      if hd : 1 ≤ day ∧ day ≤ Calendar.daysIn year month then some ⟨year, month, day, hy, hm, hd⟩
      else none
    else none
  else none

/-- The day after. -/
def next? (d : Date) : Option Date :=
  (of? d.year d.month (d.day + 1)).or
    ((of? d.year (d.month + 1) 1).or (of? (d.year + 1) 1 1))

/-- The day before. -/
def previous? (d : Date) : Option Date :=
  (of? d.year d.month (d.day - 1)).or
    ((of? d.year (d.month - 1) (Calendar.daysIn d.year (d.month - 1))).or
      (of? (d.year - 1) 12 31))

end Date

/-! ## Moments -/

/-- A moment. -/
structure Timestamp where
  date : Date
  /-- the second of the day -/
  second : Nat
  nano : Nat
  secondBound : second < 86400
  nanoBound : nano < 2000000000
  leap : 1000000000 ≤ nano → second % 60 = 59
  deriving DecidableEq

namespace Timestamp

/-- The moment at which a clock that is `offset` minutes ahead shows a day, a second and a fraction;
none for a second that no clock shows or a day out of bounds. -/
def ofLocal? (date : Date) (second nano : Nat) (offset : Int) : Option Timestamp :=
  if h : second < 86400 ∧ nano < 2000000000 ∧ (1000000000 ≤ nano → second % 60 = 59) then
    let shifted : Int := second - 60 * offset
    let day? := if shifted < 0 then date.previous? else if 86400 ≤ shifted then date.next? else some date
    day?.map fun day =>
      { date := day
        second := (shifted % 86400).toNat
        nano := nano
        secondBound := by omega
        nanoBound := h.2.1
        leap := fun hn => by
          have := h.2.2 hn
          omega }
  else none

/-- The first day of 1970. -/
def epoch : Date :=
  ⟨1970, 1, 1, by decide, by decide, by decide⟩

/-- The moment that many seconds and nanoseconds after the beginning of 1970, days beyond the
calendar being left out. -/
def sinceEpoch (seconds nanos : Nat) : Timestamp :=
  { date := Nat.repeat (fun d => d.next?.getD d) (seconds / 86400) epoch
    second := seconds % 86400
    nano := nanos % 1000000000
    secondBound := by omega
    nanoBound := by omega
    leap := by omega }

/-- Whether `a` comes before `b`. -/
def before (a b : Timestamp) : Bool :=
  let key (t : Timestamp) : List Int := [t.date.year, t.date.month, t.date.day, t.second, t.nano]
  key a < key b

/-- The later of two moments. -/
def max (a b : Timestamp) : Timestamp :=
  if b.before a then a else b

/-! ## Writing -/

/-- `n` with at least `width` digits. -/
def pad (width n : Nat) : String :=
  let digits := Nat.toDigits 10 n
  String.ofList (List.replicate (width - digits.length) '0' ++ digits)

/-- A year: four digits, or a sign and at least four digits outside the years 0 to 9999. -/
def writeYear (year : Int) : String :=
  (if year < 0 then "-" else if 9999 < year then "+" else "") ++ pad 4 year.natAbs

/-- The fraction of a second, in no, three, six or nine digits. -/
def writeFraction (nano : Nat) : String :=
  if nano = 0 then ""
  else if nano % 1000000 = 0 then "." ++ pad 3 (nano / 1000000)
  else if nano % 1000 = 0 then "." ++ pad 6 (nano / 1000)
  else "." ++ pad 9 nano

/-- The text of a moment. A leap second is written as second 60. -/
def write (t : Timestamp) : String :=
  let second := t.second % 60 + t.nano / 1000000000
  writeYear t.date.year ++ "-" ++ pad 2 t.date.month ++ "-" ++ pad 2 t.date.day ++ "T" ++
    pad 2 (t.second / 3600) ++ ":" ++ pad 2 (t.second / 60 % 60) ++ ":" ++ pad 2 second ++
    writeFraction (t.nano % 1000000000) ++ "Z"

end Timestamp

end Blockwork
