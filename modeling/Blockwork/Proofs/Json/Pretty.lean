import Blockwork.Proofs.Json.Number
import Blockwork.Proofs.Json.Text
import Mathlib.Data.List.DropRight

/-!
# `Blockwork.Proofs.Json.Pretty`: written trees are read back

The reader goes through a written tree token by token, and the blanks that the layout puts between
them do not count. What is read is the tree itself, with one exception: the text of a number is read
as whatever number it denotes to the reader, which need not be the number that was written. So the
theorems here say what is read in terms of `reread`, and hold for every number.

## Contents
- `Json.reread`, what is read of a written tree, and `Json.Plain`, the trees that are made to be saved.
- Blanks before a value, an item or a member do not count: `readValue_skipBlanks` and its like.
- `readValue_write`, `read_writeNumber`: what is read of a number.
- `Json.ReadBack`; `readItems_prettyItems`, `readMembers_prettyMembers`: from parts to a whole.
- `readBack_of_plain`, and `read_pretty`: **a document that was written is read to its end**.
-/

namespace Blockwork.Json

/-! ## What is read of a written tree -/

mutual

/-- What is read of a tree that was written: a number becomes whatever its digits are read as. -/
def reread : Json → Json
  | number n => (Document.read n.write).root
  | array items => array (rereadAll items)
  | object members => object (rereadMembers members)
  | j => j

/-- What is read of items that were written. -/
def rereadAll : List Json → List Json
  | [] => []
  | j :: js => reread j :: rereadAll js

/-- What is read of members that were written. -/
def rereadMembers : List (Option String × Json) → List (Option String × Json)
  | [] => []
  | (key, j) :: ms => (key, reread j) :: rereadMembers ms

end

/-- A tree that was made to be saved: its numbers are doubles or have no sign, its keys are texts, and
    nothing in it stands for what could not be read. -/
inductive Plain : Json → Prop where
  | null : Plain null
  | bool (b : Bool) : Plain (bool b)
  | number (x : Binary64) : Plain (number (.real x))
  | natural (n : Nat) : Plain (number (.natural n))
  | text (s : String) : Plain (text s)
  | array {items : List Json} (hitems : ∀ j ∈ items, Plain j) : Plain (array items)
  | object {members : List (Option String × Json)} (hkeys : ∀ m ∈ members, m.1.isSome = true)
      (hmembers : ∀ m ∈ members, Plain m.2) : Plain (object members)

/-! ## Blanks -/

theorem skipBlanks_append {blanks : List Char} (h : ∀ c ∈ blanks, isJsonBlank c = true)
    (cs : List Char) : skipBlanks (blanks ++ cs) = skipBlanks cs :=
  List.dropWhile_append_of_pos h

theorem skipBlanks_cons {c : Char} (h : isJsonBlank c = false) (cs : List Char) :
    skipBlanks (c :: cs) = c :: cs :=
  List.dropWhile_cons_of_neg (by simp [h])

theorem skipBlanks_skipBlanks (cs : List Char) : skipBlanks (skipBlanks cs) = skipBlanks cs :=
  List.dropWhile_idempotent _ cs

theorem isJsonBlank_of_mem_newLine {level : Nat} {c : Char} (hc : c ∈ (newLine level).toList) :
    isJsonBlank c = true := by
  have hcases : c = '\n' ∨ c = ' ' := by
    simp [newLine] at hc
    exact hc.imp id fun h => h.2
  rcases hcases with rfl | rfl <;> rfl

/-- Blanks before a value do not count. -/
theorem readValue_skipBlanks (fuel : Nat) (cs : List Char) :
    readValue fuel (skipBlanks cs) = readValue fuel cs := by
  cases fuel with
  | zero => rw [readValue, readValue]
  | succ fuel => simp only [readValue, skipBlanks_skipBlanks]

/-- Blanks before items do not count. -/
theorem readItems_skipBlanks (fuel : Nat) (cs : List Char) :
    readItems fuel (skipBlanks cs) = readItems fuel cs := by
  cases fuel with
  | zero => rw [readItems, readItems]
  | succ fuel => rw [readItems, readItems, readValue_skipBlanks]

/-- Blanks before members do not count. -/
theorem readMembers_skipBlanks (fuel : Nat) (cs : List Char) :
    readMembers fuel (skipBlanks cs) = readMembers fuel cs := by
  cases fuel with
  | zero => rw [readMembers, readMembers]
  | succ fuel => simp only [readMembers, skipBlanks_skipBlanks]

/-! ## Numbers -/

theorem ne_of_numberStart {c : Char} (hc : c = '-' ∨ c.isDigit = true) {d : Char}
    (hd : d ≠ '-' ∧ d.isDigit = false) : c ≠ d := by
  rintro rfl
  rcases hc with hc | hc
  · exact hd.1 hc
  · exact absurd hc (by simp [hd.2])

theorem isJsonBlank_of_numberStart {c : Char} (hc : c = '-' ∨ c.isDigit = true) :
    isJsonBlank c = false := by
  have hspace := ne_of_numberStart hc (d := ' ') (by decide)
  have hlineFeed := ne_of_numberStart hc (d := '\n') (by decide)
  have htab := ne_of_numberStart hc (d := '\t') (by decide)
  have hreturn := ne_of_numberStart hc (d := '\r') (by decide)
  simp [isJsonBlank, hspace, hlineFeed, htab, hreturn]

/-- What begins like a number is read as one. -/
theorem readValue_number {c : Char} (hc : c = '-' ∨ c.isDigit = true) (fuel : Nat) (cs : List Char) :
    readValue (fuel + 1) (c :: cs) = readNumber (c :: cs) := by
  have hstart : ∀ {d}, d ≠ '-' ∧ d.isDigit = false → ∀ ds, c :: cs ≠ d :: ds :=
    fun hd ds h => ne_of_numberStart hc hd (List.cons.inj h).1
  rw [readValue, skipBlanks_cons (isJsonBlank_of_numberStart hc)]
  split
  · exact absurd ‹_› (hstart (by decide) _)
  · exact absurd ‹_› (hstart (by decide) _)
  · exact absurd ‹_› (hstart (by decide) _)
  · exact absurd ‹_› (hstart (by decide) _)
  · exact absurd ‹_› (hstart (by decide) _)
  · exact absurd ‹_› (hstart (by decide) _)
  · rename_i h
    obtain ⟨rfl, rfl⟩ := List.cons.inj h
    rw [if_pos hc]
  · exact absurd ‹_› (List.cons_ne_nil c cs)

theorem toList_write_of_not_isFinite {x : Binary64} (h : ¬x.isFinite = true) :
    (Numeral.real x).write.toList = ['n', 'u', 'l', 'l'] := by
  cases x with
  | nan negative =>
      show "null".toList = _
      decide
  | infinite negative => cases negative <;> decide
  | finite negative m => exact absurd rfl h

/-- A finite double is written in parts. -/
theorem exists_chars_of_isFinite {x : Binary64} (h : x.isFinite = true) :
    ∃ t : NumberText, t.WellFormed ∧ (Numeral.real x).write.toList = t.chars := by
  cases x with
  | nan negative => exact absurd h Bool.false_ne_true
  | infinite negative => exact absurd h Bool.false_ne_true
  | finite negative m => exact exists_write negative m

/-- A number in parts is read as its value, whatever follows that ends a number. -/
theorem readValue_chars {t : NumberText} (ht : t.WellFormed) (fuel : Nat) {rest : List Char}
    (hrest : EndsNumber rest) :
    readValue (fuel + 1) (t.chars ++ rest)
      = ((t.numeral?.map number).getD unreadable, some rest) := by
  obtain ⟨c, cs, hhead, hc⟩ := ht.exists_head
  have hscan := scanNumber?_chars ht hrest
  rw [hhead, List.cons_append] at hscan ⊢
  rw [readValue_number hc, readNumber, hscan]
  cases hnumeral : t.numeral? with
  | none => simp [hnumeral]
  | some n => simp [hnumeral]

/-- What is written for a double is read as one value, whatever follows that ends a number. -/
theorem exists_readValue_write (x : Binary64) :
    ∃ v, ∀ fuel rest, EndsNumber rest →
      readValue (fuel + 1) ((Numeral.real x).write.toList ++ rest) = (v, some rest) := by
  by_cases hfinite : x.isFinite = true
  · obtain ⟨t, ht, hchars⟩ := exists_chars_of_isFinite hfinite
    refine ⟨(t.numeral?.map number).getD unreadable, fun fuel rest hrest => ?_⟩
    rw [hchars]
    exact readValue_chars ht fuel hrest
  · refine ⟨null, fun fuel rest _ => ?_⟩
    rw [toList_write_of_not_isFinite hfinite]
    rfl

theorem endsNumber_nil : EndsNumber [] :=
  fun _ h => absurd h (by simp)

/-- What a number is read as does not depend on where it stands. -/
theorem reread_of_readValue {n : Numeral} {v : Json}
    (h : ∀ fuel rest, EndsNumber rest →
      readValue (fuel + 1) (n.write.toList ++ rest) = (v, some rest)) : reread (number n) = v := by
  have halone := h (2 * n.write.toList.length + 1) [] endsNumber_nil
  rw [List.append_nil] at halone
  rw [reread]
  simp only [Document.read, halone]

theorem readValue_write (x : Binary64) (fuel : Nat) {rest : List Char} (hrest : EndsNumber rest) :
    readValue (fuel + 1) ((Numeral.real x).write.toList ++ rest)
      = (reread (number (.real x)), some rest) := by
  obtain ⟨v, hv⟩ := exists_readValue_write x
  rw [reread_of_readValue hv, hv fuel rest hrest]

theorem readValue_writeNatural (n fuel : Nat) {rest : List Char} (hrest : EndsNumber rest) :
    readValue (fuel + 1) ((Numeral.natural n).write.toList ++ rest)
      = (reread (number (.natural n)), some rest) := by
  have hread : ∀ fuel rest, EndsNumber rest →
      readValue (fuel + 1) ((Numeral.natural n).write.toList ++ rest)
        = (((NumberText.ofNat n).numeral?.map number).getD unreadable, some rest) := by
    intro fuel rest hrest
    rw [← NumberText.chars_ofNat]
    exact readValue_chars (NumberText.wellFormed_ofNat n) fuel hrest
  rw [reread_of_readValue hread, hread fuel rest hrest]

/-- A whole number of 64 bits is read as itself. -/
theorem reread_natural {n : Nat} (h : n < UInt64.size) :
    reread (number (.natural n)) = number (.natural n) := by
  refine reread_of_readValue fun fuel rest hrest => ?_
  rw [← NumberText.chars_ofNat, readValue_chars (NumberText.wellFormed_ofNat n) fuel hrest,
    NumberText.numeral?_ofNat h]
  rfl

/-- A double that was written alone is read to the end. -/
theorem read_writeNumber (x : Binary64) :
    Document.read (Numeral.real x).write = ⟨reread (number (.real x)), true⟩ := by
  have hread := readValue_write x (2 * (Numeral.real x).write.toList.length + 1) endsNumber_nil
  rw [List.append_nil] at hread
  simp only [Document.read, hread]
  rfl

/-! ## Trees -/

/-- A tree is read back wherever it was written, with fuel for twice its characters. What follows it
    only matters if it could be taken for more of a number. -/
def ReadBack (j : Json) : Prop :=
  ∀ level fuel rest, 2 * (prettyAt level j).toList.length ≤ fuel → EndsNumber rest →
    readValue fuel ((prettyAt level j).toList ++ rest) = (reread j, some rest)

theorem newLine_toList (level : Nat) :
    (newLine level).toList = '\n' :: List.replicate (2 * level) ' ' := by
  simp [newLine]

theorem endsNumber_newLine (level : Nat) (cs : List Char) :
    EndsNumber ((newLine level).toList ++ cs) := by
  rw [newLine_toList]
  intro c hc
  cases hc
  decide

theorem endsNumber_comma (cs : List Char) : EndsNumber (',' :: cs) := by
  intro c hc
  cases hc
  decide

theorem skipBlanks_newLine (level : Nat) (cs : List Char) :
    skipBlanks ((newLine level).toList ++ cs) = skipBlanks cs :=
  skipBlanks_append (fun _ => isJsonBlank_of_mem_newLine) cs

theorem readValue_newLine (level fuel : Nat) (cs : List Char) :
    readValue fuel ((newLine level).toList ++ cs) = readValue fuel cs := by
  rw [← readValue_skipBlanks, skipBlanks_newLine, readValue_skipBlanks]

theorem readValue_space (fuel : Nat) (cs : List Char) : readValue fuel (' ' :: cs) = readValue fuel cs := by
  rw [← readValue_skipBlanks]
  exact readValue_skipBlanks fuel cs

/-! ### Steps of the reader -/

variable {fuel : Nat} {j : Json} {cs after more rest : List Char}

theorem readItems_last (hread : readValue fuel cs = (j, some after))
    (hafter : skipBlanks after = ']' :: rest) : readItems (fuel + 1) cs = ([j], some rest) := by
  rw [readItems, hread]
  simp only [hafter]

theorem readItems_next (hread : readValue fuel cs = (j, some after))
    (hafter : skipBlanks after = ',' :: more) {items : List Json}
    (hitems : readItems fuel more = (items, some rest)) :
    readItems (fuel + 1) cs = (j :: items, some rest) := by
  rw [readItems, hread]
  simp only [hafter, hitems]

theorem readMembers_last {key : String} {colon : List Char}
    (hkey : skipBlanks cs = '"' :: (key.toList.flatMap escapeChar ++ '"' :: ':' :: colon))
    (hread : readValue fuel colon = (j, some after)) (hafter : skipBlanks after = '\x7d' :: rest) :
    readMembers (fuel + 1) cs = ([(some key, j)], some rest) := by
  rw [readMembers, hkey]
  simp only [readText?_escaped, skipBlanks_cons (c := ':') rfl, hread, hafter]

theorem readMembers_next {key : String} {colon : List Char}
    (hkey : skipBlanks cs = '"' :: (key.toList.flatMap escapeChar ++ '"' :: ':' :: colon))
    (hread : readValue fuel colon = (j, some after)) (hafter : skipBlanks after = ',' :: more)
    {members : List (Option String × Json)}
    (hmembers : readMembers fuel more = (members, some rest)) :
    readMembers (fuel + 1) cs = ((some key, j) :: members, some rest) := by
  rw [readMembers, hkey]
  simp only [readText?_escaped, skipBlanks_cons (c := ':') rfl, hread, hafter, hmembers]

theorem readValue_array {c : Char} {items : List Json} (hstart : skipBlanks cs = c :: more)
    (hc : c ≠ ']') (hitems : readItems fuel cs = (items, some rest)) :
    readValue (fuel + 1) ('[' :: cs) = (array items, some rest) := by
  rw [← readItems_skipBlanks, hstart] at hitems
  rw [readValue, skipBlanks_cons rfl]
  simp only [hstart]
  split
  · rename_i h
    exact absurd (List.cons.inj h).1 hc
  · rw [hitems]

theorem readValue_object {members : List (Option String × Json)}
    (hstart : skipBlanks cs = '"' :: more) (hmembers : readMembers fuel cs = (members, some rest)) :
    readValue (fuel + 1) ('\x7b' :: cs) = (object members, some rest) := by
  rw [← readMembers_skipBlanks, hstart] at hmembers
  rw [readValue, skipBlanks_cons rfl]
  simp only [hstart]
  show (object (readMembers fuel ('"' :: more)).1, (readMembers fuel ('"' :: more)).2) = _
  rw [hmembers]

/-! ### What is written -/

theorem toList_prettyItems_singleton (level : Nat) (j : Json) :
    (prettyItems level [j]).toList = (newLine level).toList ++ (prettyAt level j).toList := by
  rw [prettyItems, String.toList_append]

theorem toList_prettyItems_cons (level : Nat) (j : Json) {items : List Json} (h : items ≠ []) :
    (prettyItems level (j :: items)).toList
      = (newLine level).toList ++
          ((prettyAt level j).toList ++ ',' :: (prettyItems level items).toList) := by
  rw [prettyItems]
  · simp
  · exact h

theorem toList_prettyMembers_singleton (level : Nat) (key : String) (j : Json) :
    (prettyMembers level [(some key, j)]).toList
      = (newLine level).toList ++ ('"' :: (key.toList.flatMap escapeChar ++
          '"' :: ':' :: ' ' :: (prettyAt level j).toList)) := by
  rw [prettyMembers]
  simp [writeKey, toList_writeText]

theorem toList_prettyMembers_cons (level : Nat) (key : String) (j : Json)
    {members : List (Option String × Json)} (h : members ≠ []) :
    (prettyMembers level ((some key, j) :: members)).toList
      = (newLine level).toList ++ ('"' :: (key.toList.flatMap escapeChar ++
          '"' :: ':' :: ' ' :: ((prettyAt level j).toList ++
            ',' :: (prettyMembers level members).toList))) := by
  rw [prettyMembers]
  · simp [writeKey, toList_writeText]
  · exact h

/-- Items are read back up to the closing bracket. -/
theorem readItems_prettyItems {items : List Json} (hne : items ≠ []) (hback : ∀ j ∈ items, ReadBack j)
    (level inner : Nat) (hfuel : 2 * (prettyItems inner items).toList.length ≤ fuel) :
    readItems fuel ((prettyItems inner items).toList ++ ((newLine level).toList ++ ']' :: rest))
      = (rereadAll items, some rest) := by
  induction items generalizing fuel with
  | nil => exact absurd rfl hne
  | cons j items ih =>
      obtain ⟨hj, hitems⟩ := List.forall_mem_cons.mp hback
      have hpos : 0 < (newLine inner).toList.length := by simp [newLine_toList]
      by_cases hnil : items = []
      · subst hnil
        rw [toList_prettyItems_singleton, List.length_append] at hfuel
        obtain ⟨n, rfl⟩ : ∃ n, fuel = n + 1 := ⟨fuel - 1, by omega⟩
        have hread := hj inner n ((newLine level).toList ++ ']' :: rest) (by omega)
          (endsNumber_newLine _ _)
        rw [← readValue_newLine inner] at hread
        rw [toList_prettyItems_singleton, List.append_assoc, rereadAll, rereadAll]
        exact readItems_last hread (skipBlanks_newLine level _)
      · -- The line feed before the item pays for the step to the next one.
        rw [toList_prettyItems_cons _ _ hnil, List.length_append, List.length_append,
          List.length_cons] at hfuel
        obtain ⟨n, rfl⟩ : ∃ n, fuel = n + 1 := ⟨fuel - 1, by omega⟩
        have hrest : readItems n ((prettyItems inner items).toList ++
            ((newLine level).toList ++ ']' :: rest)) = (rereadAll items, some rest) :=
          ih hnil hitems (by omega)
        have hread := hj inner n (',' :: ((prettyItems inner items).toList ++
          ((newLine level).toList ++ ']' :: rest))) (by omega) (endsNumber_comma _)
        rw [← readValue_newLine inner] at hread
        rw [toList_prettyItems_cons _ _ hnil, List.append_assoc, List.append_assoc, rereadAll]
        exact readItems_next hread (skipBlanks_cons rfl _) hrest

/-- Members are read back up to the closing brace. -/
theorem readMembers_prettyMembers {members : List (Option String × Json)} (hne : members ≠ [])
    (hback : ∀ m ∈ members, m.1.isSome = true ∧ ReadBack m.2) (level inner : Nat)
    (hfuel : 2 * (prettyMembers inner members).toList.length ≤ fuel) :
    readMembers fuel ((prettyMembers inner members).toList ++ ((newLine level).toList ++ '\x7d' :: rest))
      = (rereadMembers members, some rest) := by
  induction members generalizing fuel with
  | nil => exact absurd rfl hne
  | cons m members ih =>
      obtain ⟨⟨hkey, hj⟩, hmembers⟩ := List.forall_mem_cons.mp hback
      obtain ⟨key, j⟩ := m
      obtain ⟨key, rfl⟩ := Option.isSome_iff_exists.mp hkey
      have hj : ReadBack j := hj
      have hpos : 0 < (newLine inner).toList.length := by simp [newLine_toList]
      have hquote : ∀ cs, skipBlanks ((newLine inner).toList ++ '"' :: cs) = '"' :: cs := fun cs => by
        rw [skipBlanks_newLine, skipBlanks_cons rfl]
      by_cases hnil : members = []
      · subst hnil
        rw [toList_prettyMembers_singleton, List.length_append, List.length_cons, List.length_append,
          List.length_cons, List.length_cons, List.length_cons] at hfuel
        obtain ⟨n, rfl⟩ : ∃ n, fuel = n + 1 := ⟨fuel - 1, by omega⟩
        have hread := hj inner n ((newLine level).toList ++ '\x7d' :: rest) (by omega)
          (endsNumber_newLine _ _)
        rw [← readValue_space] at hread
        rw [toList_prettyMembers_singleton, rereadMembers, rereadMembers]
        simp only [List.append_assoc, List.cons_append]
        exact readMembers_last (hquote _) hread (skipBlanks_newLine level _)
      · rw [toList_prettyMembers_cons _ _ _ hnil] at hfuel
        simp only [List.length_append, List.length_cons] at hfuel
        obtain ⟨n, rfl⟩ : ∃ n, fuel = n + 1 := ⟨fuel - 1, by omega⟩
        have hrest : readMembers n ((prettyMembers inner members).toList ++
            ((newLine level).toList ++ '\x7d' :: rest)) = (rereadMembers members, some rest) :=
          ih hnil hmembers (by omega)
        have hread := hj inner n (',' :: ((prettyMembers inner members).toList ++
          ((newLine level).toList ++ '\x7d' :: rest))) (by omega) (endsNumber_comma _)
        rw [← readValue_space] at hread
        rw [toList_prettyMembers_cons _ _ _ hnil, rereadMembers]
        simp only [List.append_assoc, List.cons_append]
        exact readMembers_next (hquote _) hread (skipBlanks_cons rfl _) hrest

/-- A written double begins with a character that is no blank and closes nothing. -/
theorem exists_head_write (x : Binary64) :
    ∃ c cs, (Numeral.real x).write.toList = c :: cs ∧ isJsonBlank c = false ∧ c ≠ ']' := by
  by_cases hfinite : x.isFinite = true
  · obtain ⟨t, ht, hchars⟩ := exists_chars_of_isFinite hfinite
    obtain ⟨c, cs, hhead, hc⟩ := ht.exists_head
    exact ⟨c, cs, hchars.trans hhead, isJsonBlank_of_numberStart hc,
      ne_of_numberStart hc (by decide)⟩
  · exact ⟨'n', _, toList_write_of_not_isFinite hfinite, by decide⟩

theorem toList_prettyAt_array (level : Nat) {items : List Json} (h : items ≠ []) :
    (prettyAt level (array items)).toList
      = '[' :: ((prettyItems (level + 1) items).toList ++ ((newLine level).toList ++ [']'])) := by
  rw [prettyAt]
  · simp
  · exact h

theorem toList_prettyAt_object (level : Nat) {members : List (Option String × Json)}
    (h : members ≠ []) :
    (prettyAt level (object members)).toList
      = '\x7b' ::
          ((prettyMembers (level + 1) members).toList ++ ((newLine level).toList ++ ['\x7d'])) := by
  rw [prettyAt]
  · simp
  · exact h

/-- So does every written tree. -/
theorem exists_head_prettyAt (level : Nat) {j : Json} (hj : Plain j) :
    ∃ c cs, (prettyAt level j).toList = c :: cs ∧ isJsonBlank c = false ∧ c ≠ ']' := by
  cases hj with
  | null => exact ⟨'n', _, by rw [prettyAt]; rfl, by decide⟩
  | bool b =>
      cases b with
      | true => exact ⟨'t', _, by rw [prettyAt]; rfl, by decide⟩
      | false => exact ⟨'f', _, by rw [prettyAt]; rfl, by decide⟩
  | number x =>
      rw [prettyAt]
      exact exists_head_write x
  | natural n =>
      obtain ⟨c, cs, hhead, hc⟩ := (NumberText.wellFormed_ofNat n).exists_head
      rw [prettyAt, ← NumberText.chars_ofNat]
      exact ⟨c, cs, hhead, isJsonBlank_of_numberStart hc, ne_of_numberStart hc (by decide)⟩
  | text s =>
      rw [prettyAt, toList_writeText]
      exact ⟨'"', _, rfl, by decide⟩
  | @array items hitems =>
      by_cases hnil : items = []
      · subst hnil
        exact ⟨'[', _, by rw [prettyAt]; rfl, by decide⟩
      · exact ⟨'[', _, toList_prettyAt_array level hnil, by decide⟩
  | @object members hkeys hmembers =>
      by_cases hnil : members = []
      · subst hnil
        exact ⟨'\x7b', _, by rw [prettyAt]; rfl, by decide⟩
      · exact ⟨'\x7b', _, toList_prettyAt_object level hnil, by decide⟩

/-- The first item stands behind the blanks before it, and it does not close the array. -/
theorem exists_head_prettyItems (level : Nat) {items : List Json} (hne : items ≠ [])
    (hitems : ∀ j ∈ items, Plain j) (rest : List Char) :
    ∃ c more, skipBlanks ((prettyItems level items).toList ++ rest) = c :: more ∧ c ≠ ']' := by
  cases items with
  | nil => exact absurd rfl hne
  | cons j items =>
      obtain ⟨c, cs, hhead, hblank, hc⟩ := exists_head_prettyAt level (hitems j List.mem_cons_self)
      have hstart : ∃ more, (prettyItems level (j :: items)).toList
          = (newLine level).toList ++ (c :: more) := by
        by_cases hnil : items = []
        · subst hnil
          exact ⟨cs, by rw [toList_prettyItems_singleton, hhead]⟩
        · exact ⟨_, by rw [toList_prettyItems_cons level j hnil, hhead]; rfl⟩
      obtain ⟨more, hmore⟩ := hstart
      rw [hmore, List.append_assoc, skipBlanks_newLine, List.cons_append, skipBlanks_cons hblank]
      exact ⟨c, _, rfl, hc⟩

/-- The first member stands behind the blanks before it. -/
theorem exists_head_prettyMembers (level : Nat) {members : List (Option String × Json)}
    (hne : members ≠ []) (hkeys : ∀ m ∈ members, m.1.isSome = true) (rest : List Char) :
    ∃ more, skipBlanks ((prettyMembers level members).toList ++ rest) = '"' :: more := by
  cases members with
  | nil => exact absurd rfl hne
  | cons m members =>
      obtain ⟨key, j⟩ := m
      obtain ⟨key, rfl⟩ := Option.isSome_iff_exists.mp (hkeys _ List.mem_cons_self)
      by_cases hnil : members = []
      · subst hnil
        rw [toList_prettyMembers_singleton, List.append_assoc, skipBlanks_newLine, List.cons_append,
          skipBlanks_cons rfl]
        exact ⟨_, rfl⟩
      · rw [toList_prettyMembers_cons level key j hnil, List.append_assoc, skipBlanks_newLine,
          List.cons_append, skipBlanks_cons rfl]
        exact ⟨_, rfl⟩

/-- **A tree is read back**, with every number as its digits are read, wherever it was written. -/
theorem readBack_of_plain {j : Json} (hj : Plain j) : ReadBack j := by
  -- Every tree is written with at least one character, so there is fuel for the first step.
  have hfuel : ∀ {j level fuel}, Plain j → 2 * (prettyAt level j).toList.length ≤ fuel →
      ∃ n, fuel = n + 1 := by
    intro j level fuel hj hlength
    obtain ⟨c, cs, hhead, -⟩ := exists_head_prettyAt level hj
    rw [hhead, List.length_cons] at hlength
    exact ⟨fuel - 1, by omega⟩
  induction hj with
  | null =>
      intro level fuel rest hlength _
      obtain ⟨n, rfl⟩ := hfuel .null hlength
      rw [prettyAt]
      rfl
  | bool b =>
      intro level fuel rest hlength _
      obtain ⟨n, rfl⟩ := hfuel (.bool b) hlength
      cases b with
      | true =>
          rw [prettyAt]
          rfl
      | false =>
          rw [prettyAt]
          rfl
  | number x =>
      intro level fuel rest hlength hrest
      obtain ⟨n, rfl⟩ := hfuel (.number x) hlength
      rw [prettyAt]
      exact readValue_write x n hrest
  | natural m =>
      intro level fuel rest hlength hrest
      obtain ⟨n, rfl⟩ := hfuel (.natural m) hlength
      rw [prettyAt]
      exact readValue_writeNatural m n hrest
  | text s =>
      intro level fuel rest hlength _
      obtain ⟨n, rfl⟩ := hfuel (.text s) hlength
      rw [prettyAt, toList_writeText, List.cons_append, List.append_assoc, readValue,
        skipBlanks_cons rfl]
      simp only [List.singleton_append, readText?_escaped]
      rfl
  | @array items hitems ih =>
      intro level fuel rest hlength hrest
      obtain ⟨n, rfl⟩ := hfuel (.array hitems) hlength
      by_cases hnil : items = []
      · subst hnil
        rw [prettyAt]
        rfl
      · rw [toList_prettyAt_array level hnil] at hlength ⊢
        simp only [List.length_cons, List.length_append] at hlength
        have hread : readItems n ((prettyItems (level + 1) items).toList ++
            ((newLine level).toList ++ ']' :: rest)) = (rereadAll items, some rest) :=
          readItems_prettyItems hnil ih level (level + 1) (by omega)
        obtain ⟨c, more, hstart, hc⟩ := exists_head_prettyItems (level + 1) hnil hitems _
        simp only [List.cons_append, List.append_assoc, List.nil_append]
        rw [reread]
        exact readValue_array hstart hc hread
  | @object members hkeys hmembers ih =>
      intro level fuel rest hlength hrest
      obtain ⟨n, rfl⟩ := hfuel (.object hkeys hmembers) hlength
      by_cases hnil : members = []
      · subst hnil
        rw [prettyAt]
        rfl
      · rw [toList_prettyAt_object level hnil] at hlength ⊢
        simp only [List.length_cons, List.length_append] at hlength
        have hread : readMembers n ((prettyMembers (level + 1) members).toList ++
            ((newLine level).toList ++ '\x7d' :: rest)) = (rereadMembers members, some rest) :=
          readMembers_prettyMembers hnil (fun m hm => ⟨hkeys m hm, ih m hm⟩) level (level + 1) (by omega)
        obtain ⟨more, hstart⟩ := exists_head_prettyMembers (level + 1) hnil hkeys _
        simp only [List.cons_append, List.append_assoc, List.nil_append]
        rw [reread]
        exact readValue_object hstart hread

/-- **A document that was written is read to its end.** -/
theorem read_pretty {j : Json} (hj : Plain j) : Document.read j.pretty = ⟨reread j, true⟩ := by
  have hread := readBack_of_plain hj 0 (2 * j.pretty.toList.length + 2) []
    (by rw [pretty]; omega) endsNumber_nil
  rw [List.append_nil] at hread
  have hread' : readValue (2 * j.pretty.toList.length + 2) j.pretty.toList = (reread j, some []) :=
    hread
  simp only [Document.read, hread']
  rfl

end Blockwork.Json
