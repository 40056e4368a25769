import Blockwork.Proofs.Text.Digits
import Blockwork.Time.Reader
import Mathlib.Algebra.Group.Nat.Defs

/-!
# `Blockwork.Proofs.Time.RoundTrip`: time stamps are read back

Every part of a time stamp but the year and the fraction has a fixed width, and each reader takes
exactly what was written for its part. A year outside four digits has a sign, and with it any number
of digits is read.

## Contents
- `digits_pad`, `length_pad`: padded numbers, and `scanNumber_append`.
- `scanYear_writeYear`, `scanField_pad`, `scanFraction_writeFraction`: the parts.
- `Timestamp.parse_write`.
-/

namespace Blockwork.Timestamp

variable {width n : Nat} {digits rest : List Char}

/-! ## Padded numbers -/

/-- A padded number has digits that write it. -/
theorem digits_pad (width n : Nat) :
    (∀ c ∈ (pad width n).toList, c.isDigit = true) ∧ Text.digitsValue (pad width n).toList = n := by
  rw [pad, String.toList_ofList]
  constructor
  · exact List.forall_mem_append.mpr
      ⟨fun c => Text.isDigit_of_mem_zeros, fun c => Text.isDigit_of_mem_toDigits⟩
  · rw [Text.digitsValue_zeros_append, Text.digitsValue_toDigits]

/-- A number that fits is padded to the width. -/
theorem length_pad (hwidth : 0 < width) (hn : n < 10 ^ width) :
    (pad width n).toList.length = width := by
  have hlength : (Nat.toDigits 10 n).length ≤ width :=
    (Nat.length_toDigits_le_iff (by decide) hwidth).mpr hn
  rw [pad, String.toList_ofList, List.length_append, List.length_replicate]
  omega

theorem pad_ne_nil (hwidth : 0 < width) (n : Nat) : (pad width n).toList ≠ [] := by
  refine List.ne_nil_of_length_pos ?_
  rw [pad, String.toList_ofList, List.length_append, List.length_replicate]
  omega

/-- A number is read up to the width, or up to the first character that is no digit. -/
theorem scanNumber_append (hne : digits ≠ []) (hdigits : ∀ c ∈ digits, c.isDigit = true)
    (hstop : digits.length = width ∨
      digits.length < width ∧ ∀ c ∈ rest.head?, c.isDigit = false) :
    scanNumber width (digits ++ rest) = .ok (Text.digitsValue digits, rest) := by
  have htaken : ((digits ++ rest).take width).takeWhile Char.isDigit = digits := by
    rcases hstop with hlength | ⟨hlength, hrest⟩
    · rw [← hlength, List.take_left]
      exact List.takeWhile_eq_self_iff.mpr hdigits
    · rw [List.take_append, List.take_of_length_le (Nat.le_of_lt hlength)]
      refine (Text.takeWhile_isDigit_append hdigits fun c hc => ?_).1
      rw [List.head?_take, if_neg (by omega)] at hc
      exact hrest c hc
  cases hcs : digits ++ rest with
  | nil => exact absurd (List.append_eq_nil_iff.mp hcs).1 hne
  | cons c cs =>
      rw [hcs] at htaken
      unfold scanNumber
      simp only [htaken]
      rw [if_neg (by simpa using hne), ← hcs, List.drop_left]

theorem scanNumber_pad (hwidth : 0 < width) (hn : n < 10 ^ width) (rest : List Char) :
    scanNumber width ((pad width n).toList ++ rest) = .ok (n, rest) := by
  obtain ⟨hdigits, hvalue⟩ := digits_pad width n
  rw [scanNumber_append (pad_ne_nil hwidth n) hdigits (Or.inl (length_pad hwidth hn)), hvalue]

/-- There are no blanks before a padded number, and no sign. -/
theorem exists_head_pad (hwidth : 0 < width) (n : Nat) (rest : List Char) :
    ∃ c cs, (pad width n).toList ++ rest = c :: cs ∧ c.isDigit = true := by
  obtain ⟨hdigits, -⟩ := digits_pad width n
  cases hchars : (pad width n).toList with
  | nil => exact absurd hchars (pad_ne_nil hwidth n)
  | cons c cs => exact ⟨c, cs ++ rest, rfl, hdigits c (by rw [hchars]; exact List.mem_cons_self)⟩

theorem dropBlanks_pad (hwidth : 0 < width) (n : Nat) (rest : List Char) :
    Text.dropBlanks ((pad width n).toList ++ rest) = (pad width n).toList ++ rest := by
  obtain ⟨c, cs, hchars, hc⟩ := exists_head_pad hwidth n rest
  rw [hchars, Text.dropBlanks, List.dropWhile_cons_of_neg (by simp [Text.isBlank_of_isDigit hc])]

/-! ## Parts -/

theorem scanYear_pad (hn : n < 10 ^ 4) (rest : List Char) :
    scanYear ((pad 4 n).toList ++ rest) = .ok ((n : Int), rest) := by
  obtain ⟨c, cs, hchars, hc⟩ := exists_head_pad (by decide : 0 < 4) n rest
  have hnumber := scanNumber_pad (by decide) hn rest
  rw [scanYear, dropBlanks_pad (by decide), hchars]
  rw [hchars] at hnumber
  -- A digit is no sign.
  split
  · rename_i h
    obtain ⟨rfl, rfl⟩ := List.cons.inj h
    exact absurd hc (by decide)
  · rename_i h
    obtain ⟨rfl, rfl⟩ := List.cons.inj h
    exact absurd hc (by decide)
  · rw [hnumber]
    rfl

/-- Behind a sign all digits are read. -/
theorem scanNumber_signed (n : Nat) {c : Char} (hc : c.isDigit = false) (rest : List Char) :
    scanNumber ((pad 4 n).toList ++ c :: rest).length ((pad 4 n).toList ++ c :: rest)
      = .ok (n, c :: rest) := by
  obtain ⟨hdigits, hvalue⟩ := digits_pad 4 n
  have hstop : (pad 4 n).toList.length < ((pad 4 n).toList ++ c :: rest).length ∧
      ∀ d ∈ (c :: rest).head?, d.isDigit = false := by
    constructor
    · rw [List.length_append, List.length_cons]
      omega
    · rintro d ⟨⟩
      exact hc
  rw [scanNumber_append (pad_ne_nil (by decide) n) hdigits (Or.inr hstop), hvalue]

/-- A year is read back whether or not it was written with a sign. -/
theorem scanYear_writeYear {year : Int} (hyear : year.natAbs < UInt32.size / 2) {c : Char}
    (hc : c.isDigit = false) (rest : List Char) :
    scanYear ((writeYear year).toList ++ c :: rest) = .ok (year, c :: rest) := by
  have hdash : Text.isBlank '-' = false := by decide
  have hplus : Text.isBlank '+' = false := by decide
  rw [writeYear]
  by_cases hnegative : year < 0
  · have hvalue : -(year.natAbs : Int) = year := by omega
    rw [if_pos hnegative, String.toList_append]
    show scanYear ('-' :: ((pad 4 year.natAbs).toList ++ c :: rest)) = _
    rw [scanYear, Text.dropBlanks, List.dropWhile_cons_of_neg (by simp [hdash])]
    simp only [scanNumber_signed _ hc, bind, Except.bind, pure, Except.pure]
    rw [if_neg (by omega), hvalue]
  · have hvalue : (year.natAbs : Int) = year := by omega
    rw [if_neg hnegative]
    by_cases hlarge : 9999 < year
    · rw [if_pos hlarge, String.toList_append]
      show scanYear ('+' :: ((pad 4 year.natAbs).toList ++ c :: rest)) = _
      rw [scanYear, Text.dropBlanks, List.dropWhile_cons_of_neg (by simp [hplus])]
      simp only [scanNumber_signed _ hc, bind, Except.bind, pure, Except.pure]
      rw [if_neg (by omega), hvalue]
    · rw [if_neg hlarge, String.toList_append]
      show scanYear ((pad 4 year.natAbs).toList ++ c :: rest) = _
      rw [scanYear_pad (by omega), hvalue]

theorem scanField_pad {low high : Nat} (hn : n < 10 ^ 2) (hlow : low ≤ n) (hhigh : n ≤ high)
    (rest : List Char) : scanField low high ((pad 2 n).toList ++ rest) = .ok (n, rest) := by
  rw [scanField, dropBlanks_pad (by decide), scanNumber_pad (by decide) hn]
  show (if low ≤ n ∧ n ≤ high then Except.ok (n, rest) else _) = _
  rw [if_pos ⟨hlow, hhigh⟩]

theorem scanMark_cons {mark : Char} (hmark : Text.isBlank mark = false) (rest : List Char) :
    scanMark mark (mark :: rest) = .ok ((), rest) := by
  rw [scanMark, Text.dropBlanks, List.dropWhile_cons_of_neg (by simp [hmark])]
  exact if_pos rfl

/-- A fraction in some digits is read in nanoseconds. -/
theorem scanFraction_pad (hwidth : 0 < width) (hmax : width ≤ 9) (hn : n < 10 ^ width) :
    scanFraction ('.' :: ((pad width n).toList ++ ['Z'])) = .ok (n * 10 ^ (9 - width), ['Z']) := by
  obtain ⟨hdigits, hvalue⟩ := digits_pad width n
  have hlength := length_pad hwidth hn
  have hstop : (pad width n).toList.length = 9 ∨
      (pad width n).toList.length < 9 ∧ ∀ c ∈ ['Z'].head?, c.isDigit = false := by
    rw [hlength]
    rcases Nat.eq_or_lt_of_le hmax with h | h
    · exact Or.inl h
    · refine Or.inr ⟨h, ?_⟩
      rintro c ⟨⟩
      rfl
  rw [scanFraction, scanNumber_append (pad_ne_nil hwidth n) hdigits hstop, hvalue]
  show Except.ok (n * Nat.pow 10 (9 - (((pad width n).toList ++ ['Z']).length - 1)), ['Z']) = _
  rw [List.length_append, hlength]
  rfl

/-- The fraction of a second is read back, however many digits it was written in. -/
theorem scanFraction_writeFraction (hn : n < 1000000000) :
    scanFraction ((writeFraction n).toList ++ ['Z']) = .ok (n, ['Z']) := by
  unfold writeFraction
  by_cases hzero : n = 0
  · rw [if_pos hzero, hzero]
    rfl
  rw [if_neg hzero]
  by_cases hmillis : n % 1000000 = 0
  · have hread := @scanFraction_pad 3 (n / 1000000) (by decide) (by decide) (by omega)
    rw [if_pos hmillis, String.toList_append]
    refine hread.trans ?_
    show Except.ok (n / 1000000 * 1000000, ['Z']) = _
    rw [Nat.div_mul_cancel (Nat.dvd_of_mod_eq_zero hmillis)]
  rw [if_neg hmillis]
  by_cases hmicros : n % 1000 = 0
  · have hread := @scanFraction_pad 6 (n / 1000) (by decide) (by decide) (by omega)
    rw [if_pos hmicros, String.toList_append]
    refine hread.trans ?_
    show Except.ok (n / 1000 * 1000, ['Z']) = _
    rw [Nat.div_mul_cancel (Nat.dvd_of_mod_eq_zero hmicros)]
  · have hread := @scanFraction_pad 9 n (by decide) (by decide) hn
    rw [if_neg hmicros, String.toList_append]
    refine hread.trans ?_
    rw [Nat.sub_self, Nat.pow_zero, Nat.mul_one]

/-! ## Time stamps -/

theorem toList_write (t : Timestamp) :
    t.write.toList = (writeYear t.date.year).toList ++ '-' :: ((pad 2 t.date.month).toList ++
      '-' :: ((pad 2 t.date.day).toList ++ 'T' :: ((pad 2 (t.second / 3600)).toList ++
        ':' :: ((pad 2 (t.second / 60 % 60)).toList ++
          ':' :: ((pad 2 (t.second % 60 + t.nano / 1000000000)).toList ++
            ((writeFraction (t.nano % 1000000000)).toList ++ ['Z'])))))) := by
  simp [write]

theorem of?_date (d : Date) : Date.of? d.year d.month d.day = some d := by
  rw [Date.of?, dif_pos d.yearBounds, dif_pos d.monthBounds, dif_pos d.dayBounds]

theorem daysIn_le (year : Int) (month : Nat) : Calendar.daysIn year month ≤ 31 := by
  unfold Calendar.daysIn
  split
  · split <;> decide
  · split <;> decide

/-- A clock without an offset shows the moment itself. -/
theorem ofLocal?_zero (t : Timestamp) : ofLocal? t.date t.second t.nano 0 = some t := by
  have hsecond := t.secondBound
  rw [ofLocal?, dif_pos ⟨t.secondBound, t.nanoBound, t.leap⟩]
  have hday : (if (t.second : Int) - 60 * 0 < 0 then t.date.previous?
      else if (86400 : Int) ≤ t.second - 60 * 0 then t.date.next? else some t.date) = some t.date := by
    rw [if_neg (by omega), if_neg (by omega)]
  simp only [hday, Option.map_some]
  congr
  omega

/-- The seconds of a leap second are written as 60, and both readings give the moment back. -/
theorem ofLocal?_written (t : Timestamp) :
    (if t.second % 60 + t.nano / 1000000000 = 60 then
      ofLocal? t.date (3600 * (t.second / 3600) + 60 * (t.second / 60 % 60) + 59)
        (1000000000 + t.nano % 1000000000) 0
    else
      ofLocal? t.date
        (3600 * (t.second / 3600) + 60 * (t.second / 60 % 60) +
          (t.second % 60 + t.nano / 1000000000))
        (t.nano % 1000000000) 0) = some t := by
  have hnano := t.nanoBound
  by_cases hleap : 1000000000 ≤ t.nano
  · have hsecond := t.leap hleap
    have hclock : 3600 * (t.second / 3600) + 60 * (t.second / 60 % 60) + 59 = t.second := by omega
    have hfraction : 1000000000 + t.nano % 1000000000 = t.nano := by omega
    rw [if_pos (by omega), hclock, hfraction, ofLocal?_zero]
  · have hwhole : t.nano / 1000000000 = 0 := by omega
    have hclock : 3600 * (t.second / 3600) + 60 * (t.second / 60 % 60) + (t.second % 60 + 0)
        = t.second := by omega
    have hfraction : t.nano % 1000000000 = t.nano := by omega
    rw [hwhole, if_neg (by omega), hclock, hfraction, ofLocal?_zero]

/-- **Every time stamp is read back.** -/
theorem parse_write (t : Timestamp) : parse t.write = .ok t := by
  have hyear : t.date.year.natAbs < UInt32.size / 2 := by
    have hbounds := t.date.yearBounds
    have hsize : UInt32.size = 4294967296 := rfl
    omega
  have hmonth := t.date.monthBounds
  have hday : t.date.day ≤ 31 := t.date.dayBounds.2.trans (daysIn_le _ _)
  have hsecond : t.second % 60 + t.nano / 1000000000 ≤ 60 := by
    have hnano := t.nanoBound
    have hleap := t.leap
    omega
  have hhour := t.secondBound
  have hdash : Text.isBlank '-' = false := by decide
  have hcolon : Text.isBlank ':' = false := by decide
  have hseparator : ∀ rest, scanSeparator ('T' :: rest) = .ok ((), rest) := fun _ => rfl
  have hoffset : scanOffset (Text.dropBlanks ['Z']) = .ok (0, []) := if_neg (by decide +kernel)
  rw [parse, toList_write]
  simp only [bind, Except.bind, pure, Except.pure, scanMark_cons hdash, scanMark_cons hcolon, hseparator,
    hoffset,
    scanYear_writeYear hyear (show '-'.isDigit = false by decide),
    scanField_pad (show t.date.month < 10 ^ 2 by omega) hmonth.1 hmonth.2,
    scanField_pad (show t.date.day < 10 ^ 2 by omega) t.date.dayBounds.1 hday,
    scanField_pad (show t.second / 3600 < 10 ^ 2 by omega) (Nat.zero_le _) (show _ ≤ 23 by omega),
    scanField_pad (show t.second / 60 % 60 < 10 ^ 2 by omega) (Nat.zero_le _) (show _ ≤ 59 by omega),
    scanField_pad (show t.second % 60 + t.nano / 1000000000 < 10 ^ 2 by omega) (Nat.zero_le _) hsecond,
    scanFraction_writeFraction (show t.nano % 1000000000 < 1000000000 by omega)]
  rw [of?_date, if_neg (by decide)]
  dsimp only
  rw [if_neg (by decide), ofLocal?_written]

end Blockwork.Timestamp
