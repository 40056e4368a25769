import Blockwork.Json.Number
import Blockwork.Json.Writer
import Blockwork.Number.Layout
import Blockwork.Proofs.Number.Shortest
import Blockwork.Proofs.Text.Digits

/-!
# `Blockwork.Proofs.Json.Number`: numbers are told from what follows them

## Contents
- `NumberText.chars`, a number with its parts written out, and `NumberText.WellFormed`.
- `scanNumber?_chars`: its parts are found again, and what follows is left.
- `exists_write`, a finite double in parts; `NumberText.ofNat`, a whole number in parts, with
  `numeral?_ofNat`: it is read back if it fits into 64 bits.
-/

namespace Blockwork

namespace Json

/-! ## Numbers in parts -/

namespace NumberText

/-- The digits after the point, with the point. -/
def fractionChars (t : NumberText) : List Char :=
  match t.fraction with
  | none => []
  | some digits => '.' :: digits

/-- The exponent with its mark and its sign. -/
def exponentChars (t : NumberText) : List Char :=
  match t.exponent with
  | none => []
  | some (below, digits) => 'e' :: (if below then '-' else '+') :: digits

/-- The number written out. -/
def chars (t : NumberText) : List Char :=
  (if t.negative then ['-'] else []) ++ (t.whole ++ (t.fractionChars ++ t.exponentChars))

/-- At least one digit in every part that is there, and no zero before other digits. -/
structure WellFormed (t : NumberText) : Prop where
  whole : t.whole ≠ [] ∧ ∀ c ∈ t.whole, c.isDigit = true
  noLeadingZero : t.whole.head? = some '0' → t.whole.length = 1
  fraction : ∀ digits ∈ t.fraction, digits ≠ [] ∧ ∀ c ∈ digits, c.isDigit = true
  exponent : ∀ e ∈ t.exponent, e.2 ≠ [] ∧ ∀ c ∈ e.2, c.isDigit = true

/-- A number begins with its sign or with a digit. -/
theorem WellFormed.exists_head {t : NumberText} (ht : t.WellFormed) :
    ∃ c cs, t.chars = c :: cs ∧ (c = '-' ∨ c.isDigit = true) := by
  unfold chars
  cases t.negative with
  | true => exact ⟨'-', _, rfl, Or.inl rfl⟩
  | false =>
      cases hwhole : t.whole with
      | nil => exact absurd hwhole ht.whole.1
      | cons c cs => exact ⟨c, _, rfl, Or.inr (ht.whole.2 c (by rw [hwhole]; exact List.mem_cons_self))⟩

end NumberText

/-- What may follow a number: nothing that could be part of it. -/
def EndsNumber (rest : List Char) : Prop :=
  ∀ c ∈ rest.head?, c.isDigit = false ∧ c ≠ '.' ∧ c ≠ 'e' ∧ c ≠ 'E'

variable {t : NumberText} {rest : List Char}

theorem scanExponent?_chars (ht : t.WellFormed) (hrest : EndsNumber rest) :
    scanExponent? (t.exponentChars ++ rest) = some (t.exponent, rest) := by
  unfold NumberText.exponentChars
  cases hexponent : t.exponent with
  | none =>
      cases rest with
      | nil => rfl
      | cons c cs =>
          obtain ⟨-, -, he, hE⟩ := hrest c rfl
          show (if c = 'e' ∨ c = 'E' then _ else some (none, c :: cs)) = _
          rw [if_neg (not_or.mpr ⟨he, hE⟩)]
  | some e =>
      obtain ⟨below, digits⟩ := e
      obtain ⟨hne, hdigits⟩ := ht.exponent (below, digits) hexponent
      have htake := Text.takeDigits_append hdigits fun c hc => (hrest c hc).1
      cases below with
      | true =>
          show scanExponent? ('e' :: '-' :: (digits ++ rest)) = _
          rw [scanExponent?, if_pos (Or.inl rfl)]
          simp [htake, hne]
      | false =>
          show scanExponent? ('e' :: '+' :: (digits ++ rest)) = _
          rw [scanExponent?, if_pos (Or.inl rfl)]
          simp [htake, hne]

theorem scanFraction?_chars (ht : t.WellFormed) (hrest : EndsNumber rest) :
    scanFraction? (t.fractionChars ++ (t.exponentChars ++ rest))
      = some (t.fraction, t.exponentChars ++ rest) := by
  have hstop : ∀ c ∈ (t.exponentChars ++ rest).head?, c.isDigit = false ∧ c ≠ '.' := by
    unfold NumberText.exponentChars
    cases t.exponent with
    | none => exact fun c hc => ⟨(hrest c hc).1, (hrest c hc).2.1⟩
    | some e =>
        intro c hc
        cases hc
        decide
  unfold NumberText.fractionChars
  cases hfraction : t.fraction with
  | none =>
      cases hafter : t.exponentChars ++ rest with
      | nil => rfl
      | cons c cs =>
          have hc : c ≠ '.' := (hstop c (by rw [hafter]; rfl)).2
          show scanFraction? (c :: cs) = _
          rw [scanFraction?]
          simpa using hc
  | some digits =>
      obtain ⟨hne, hdigits⟩ := ht.fraction digits hfraction
      have htake := Text.takeDigits_append hdigits fun c hc => (hstop c hc).1
      show scanFraction? ('.' :: (digits ++ _)) = _
      rw [scanFraction?, htake]
      simp [hne]

theorem scanNumber?_chars (ht : t.WellFormed) (hrest : EndsNumber rest) :
    scanNumber? (t.chars ++ rest) = some (t, rest) := by
  obtain ⟨hne, hdigits⟩ := ht.whole
  have hstop : ∀ c ∈ (t.fractionChars ++ (t.exponentChars ++ rest)).head?, c.isDigit = false := by
    unfold NumberText.fractionChars NumberText.exponentChars
    cases t.fraction with
    | some digits =>
        intro c hc
        cases hc
        decide
    | none =>
        cases t.exponent with
        | some e =>
            intro c hc
            cases hc
            decide
        | none => exact fun c hc => (hrest c hc).1
  have htake := Text.takeDigits_append hdigits hstop
  have hzero : (t.whole.isEmpty || (t.whole.head? == some '0' && t.whole.length != 1)) = false := by
    rw [Bool.or_eq_false_iff, Bool.and_eq_false_iff]
    refine ⟨by simpa using hne, ?_⟩
    by_cases hhead : t.whole.head? = some '0'
    · exact Or.inr (by simpa using ht.noLeadingZero hhead)
    · exact Or.inl (by simpa using hhead)
  have hchars : t.chars ++ rest
      = (if t.negative then ['-'] else []) ++ (t.whole ++ (t.fractionChars ++ (t.exponentChars ++ rest))) := by
    simp only [NumberText.chars, List.append_assoc]
  have hfraction := scanFraction?_chars ht hrest
  have hexponent := scanExponent?_chars ht hrest
  rw [hchars]
  cases hnegative : t.negative with
  | true =>
      show scanNumber? ('-' :: _) = _
      simp [scanNumber?, htake, hzero, hfraction, hexponent, ← hnegative]
  | false =>
      -- What starts with a digit has no sign.
      show scanNumber? (t.whole ++ _) = _
      cases hwhole : t.whole with
      | nil => exact absurd hwhole hne
      | cons c cs =>
          have hc : c ≠ '-' := by
            rintro rfl
            exact absurd (hdigits '-' (by rw [hwhole]; exact List.mem_cons_self)) (by decide)
          rw [hwhole, List.cons_append] at htake
          rw [List.cons_append, scanNumber?]
          · simpa [htake, hfraction, hexponent, ← hnegative, ← hwhole, hne] using ht.noLeadingZero
          · intro ds h
            exact hc (List.cons.inj h).1

/-! ## Numbers as they are saved -/

/-- A decimal without an exponent is a number, if a zero is written as a whole number. -/
theorem exists_writePositional (d : Decimal) (hzero : d.significand = 0 → d.exponent = 0) :
    ∃ t : NumberText, t.WellFormed ∧ t.negative = false ∧
      (Layout.saved.writePositional d).toList = t.chars := by
  have hne : Nat.toDigits 10 d.significand ≠ [] := Nat.toDigits_ne_nil
  have hdigits : ∀ c ∈ Nat.toDigits 10 d.significand, c.isDigit = true :=
    fun c => Text.isDigit_of_mem_toDigits
  have hzeros : ∀ n, ∀ c ∈ List.replicate n '0', c.isDigit = true :=
    fun n c => Text.isDigit_of_mem_zeros
  have hhead : (Nat.toDigits 10 d.significand).head? = some '0' →
      (Nat.toDigits 10 d.significand).length = 1 ∧ d.exponent = 0 := by
    intro h
    have hsignificand := Text.head?_toDigits h
    rw [hsignificand]
    exact ⟨rfl, hzero hsignificand⟩
  dsimp only [Layout.writePositional]
  generalize Nat.toDigits 10 d.significand = digits at hne hdigits hhead ⊢
  generalize hlead : (digits.length : Int) + d.exponent = lead
  by_cases hwhole : 0 ≤ d.exponent
  · rw [if_pos hwhole]
    refine ⟨⟨false, digits ++ List.replicate d.exponent.toNat '0', some ['0'], none⟩,
      ⟨⟨List.append_ne_nil_of_left_ne_nil hne _, List.forall_mem_append.mpr ⟨hdigits, hzeros _⟩⟩,
        ?_, ?_, nofun⟩, rfl, ?_⟩
    · intro h
      rw [List.head?_append, Option.or_of_isSome (by simpa using hne)] at h
      simp [hhead h]
    · rintro ds ⟨⟩
      exact ⟨List.cons_ne_nil _ _, hzeros 1⟩
    · simp [NumberText.chars, NumberText.fractionChars, NumberText.exponentChars, Layout.zeros,
        Layout.saved]
  rw [if_neg hwhole]
  by_cases hpoint : 0 < lead
  · rw [if_pos hpoint]
    have hlength : lead.toNat < digits.length := by omega
    refine ⟨⟨false, digits.take lead.toNat, some (digits.drop lead.toNat), none⟩,
      ⟨⟨?_, fun c hc => hdigits c (List.mem_of_mem_take hc)⟩, ?_, ?_, nofun⟩, rfl, ?_⟩
    · simp [hne]
      omega
    · intro h
      rw [List.head?_take, if_neg (by omega)] at h
      exact absurd (hhead h).2 (by omega)
    · rintro ds ⟨⟩
      refine ⟨?_, fun c hc => hdigits c (List.mem_of_mem_drop hc)⟩
      simp
      omega
    · simp [NumberText.chars, NumberText.fractionChars, NumberText.exponentChars]
  · rw [if_neg hpoint]
    refine ⟨⟨false, ['0'], some (List.replicate (-lead).toNat '0' ++ digits), none⟩,
      ⟨⟨List.cons_ne_nil _ _, hzeros 1⟩, fun _ => rfl, ?_, nofun⟩, rfl, ?_⟩
    · rintro ds ⟨⟩
      exact ⟨List.append_ne_nil_of_right_ne_nil _ hne, List.forall_mem_append.mpr ⟨hzeros _, hdigits⟩⟩
    · simp [NumberText.chars, NumberText.fractionChars, NumberText.exponentChars, Layout.zeros]

theorem exists_writeScientific (d : Decimal) :
    ∃ t : NumberText, t.WellFormed ∧ t.negative = false ∧
      (Layout.writeScientific d).toList = t.chars := by
  have hne : Nat.toDigits 10 d.significand ≠ [] := Nat.toDigits_ne_nil
  have hdigits : ∀ c ∈ Nat.toDigits 10 d.significand, c.isDigit = true :=
    fun c => Text.isDigit_of_mem_toDigits
  dsimp only [Layout.writeScientific]
  generalize Nat.toDigits 10 d.significand = digits at hne hdigits ⊢
  generalize (digits.length : Int) + d.exponent - 1 = lead
  refine ⟨⟨false, digits.take 1, if (digits.drop 1).isEmpty then none else some (digits.drop 1),
    some (lead < 0, Nat.toDigits 10 lead.natAbs)⟩,
    ⟨⟨by simp [hne], fun c hc => hdigits c (List.mem_of_mem_take hc)⟩, ?_, ?_, ?_⟩, rfl, ?_⟩
  · intro _
    have hpos := List.length_pos_iff.mpr hne
    rw [List.length_take]
    omega
  · intro ds hds
    by_cases hfraction : (digits.drop 1).isEmpty = true
    · rw [if_pos hfraction] at hds
      exact absurd hds (by simp)
    · rw [if_neg hfraction] at hds
      cases hds
      exact ⟨by simpa using hfraction, fun c hc => hdigits c (List.mem_of_mem_drop hc)⟩
  · rintro e ⟨⟩
    exact ⟨Nat.toDigits_ne_nil, fun c => Text.isDigit_of_mem_toDigits⟩
  · by_cases hfraction : digits.tail = [] <;> by_cases hbelow : lead < 0 <;>
      simp [NumberText.chars, NumberText.fractionChars, NumberText.exponentChars, hfraction, hbelow]

/-- **A finite number is saved as a number that can be read back in its parts.** -/
theorem exists_write (negative : Bool) (m : Magnitude) :
    ∃ t : NumberText, t.WellFormed ∧ (Layout.saved.write (.finite negative m)).toList = t.chars := by
  have hbody : ∃ t : NumberText, t.WellFormed ∧ t.negative = false ∧
      (if Layout.saved.positional
          ((digitCount (m.shortest .even).significand : Int) + (m.shortest .even).exponent - 1) then
        Layout.saved.writePositional (m.shortest .even)
      else Layout.writeScientific (m.shortest .even)).toList = t.chars := by
    split
    · exact exists_writePositional _ Magnitude.exponent_of_shortest
    · exact exists_writeScientific _
  obtain ⟨t, ht, hsign, hchars⟩ := hbody
  refine ⟨{ t with negative }, ⟨ht.whole, ht.noLeadingZero, ht.fraction, ht.exponent⟩, ?_⟩
  have hunsigned : ∀ sign, NumberText.chars { t with negative := sign }
      = (if sign then ['-'] else []) ++ t.chars := by
    intro sign
    simp [NumberText.chars, NumberText.fractionChars, NumberText.exponentChars, hsign]
  rw [hunsigned, ← hchars]
  cases negative with
  | true => exact String.toList_append
  | false => rfl

/-! ## Whole numbers -/

theorem le_foldl_digits (acc : Nat) (digits : List Char) :
    acc ≤ digits.foldl (fun n c => 10 * n + Text.digitValue c) acc := by
  induction digits generalizing acc with
  | nil => exact Nat.le_refl acc
  | cons c digits ih =>
      have hnext := ih (10 * acc + Text.digitValue c)
      rw [List.foldl_cons]
      omega

/-- All digits are gathered if the number they make is small enough. -/
theorem gather_eq {acc : Nat} {digits : List Char}
    (h : digits.foldl (fun n c => 10 * n + Text.digitValue c) acc < UInt64.size) :
    gather acc digits
      = (digits.foldl (fun n c => 10 * n + Text.digitValue c) acc, digits.length) := by
  induction digits generalizing acc with
  | nil => rfl
  | cons c digits ih =>
      have hnext : 10 * acc + Text.digitValue c < UInt64.size :=
        Nat.lt_of_le_of_lt (le_foldl_digits _ digits) h
      rw [gather, if_pos hnext, ih h]
      rfl

namespace NumberText

/-- A whole number in parts. -/
def ofNat (n : Nat) : NumberText :=
  ⟨false, Nat.toDigits 10 n, none, none⟩

theorem wellFormed_ofNat (n : Nat) : (ofNat n).WellFormed where
  whole := ⟨Nat.toDigits_ne_nil, fun _ => Text.isDigit_of_mem_toDigits⟩
  noLeadingZero := by
    intro h
    have hzero : n = 0 := Text.head?_toDigits h
    subst hzero
    rfl
  fraction := nofun
  exponent := nofun

theorem chars_ofNat (n : Nat) : (ofNat n).chars = (Numeral.natural n).write.toList := by
  have hchars : (ofNat n).chars = Nat.toDigits 10 n := List.append_nil _
  have hwrite : (Numeral.natural n).write.toList = Nat.toDigits 10 n := String.toList_ofList
  rw [hchars, hwrite]

/-- A whole number of 64 bits stays what it is. -/
theorem numeral?_ofNat {n : Nat} (h : n < UInt64.size) :
    (ofNat n).numeral? = some (.natural n) := by
  have hvalue : (Nat.toDigits 10 n).foldl (fun n c => 10 * n + Text.digitValue c) 0 = n :=
    Text.digitsValue_toDigits n
  have hgather : gather 0 (Nat.toDigits 10 n) = (n, (Nat.toDigits 10 n).length) := by
    rw [gather_eq (by rw [hvalue]; exact h), hvalue]
  simp only [numeral?, ofNat, hgather, Nat.sub_self]
  rfl

end NumberText

end Json

end Blockwork
