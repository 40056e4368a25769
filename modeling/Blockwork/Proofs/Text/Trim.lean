import Blockwork.Proofs.Text.Line
import Blockwork.Text.Word

/-!
# `Blockwork.Proofs.Text.Trim`: texts with blanks around them

Trimming takes blanks from both ends and nothing else, so a text is trimmed exactly if it begins and
ends with a character that is not blank.

## Contents
- `Flush`, a text that does not begin with a blank.
- `exists_blanks_trimChars`, `flush_trimChars`, `trimChars_eq_self`.
- `trimChars_eq_nil_iff`: nothing is left of blanks, and of blanks only.
- `append_inj_of_class`: a text is cut in one way where a class of characters ends.
- `isWord_eq_false_of_isBlank`: no blank is part of a word.
-/

namespace Blockwork.Text

/-- The text does not begin with a blank. -/
def Flush (cs : List Char) : Prop :=
  ∀ c ∈ cs.head?, isBlank c = false

variable {cs ds blanks : List Char} {c : Char}

theorem flush_cons : Flush (c :: cs) ↔ isBlank c = false := by
  simp [Flush]

theorem Flush.append (h : Flush cs) (hne : cs ≠ []) (ds : List Char) : Flush (cs ++ ds) := by
  obtain ⟨c, cs, rfl⟩ := List.exists_cons_of_ne_nil hne
  exact flush_cons.mpr (flush_cons.mp h)

theorem Flush.of_append (h : Flush (cs ++ ds)) : Flush cs := by
  cases cs with
  | nil => simp [Flush]
  | cons c cs => exact flush_cons.mpr (flush_cons.mp h)

/-- How a text ends is seen from its last part. -/
theorem flush_reverse_append (hne : ds ≠ []) (cs : List Char) :
    Flush (cs ++ ds).reverse ↔ Flush ds.reverse := by
  obtain ⟨c, es, hreverse⟩ := List.exists_cons_of_ne_nil (List.reverse_ne_nil_iff.mpr hne)
  rw [List.reverse_append, hreverse, List.cons_append, flush_cons, flush_cons]

theorem flush_reverse_cons (hne : ds ≠ []) (c : Char) : Flush (c :: ds).reverse ↔ Flush ds.reverse :=
  flush_reverse_append hne [c]

theorem flush_of_forall (h : ∀ c ∈ cs, isBlank c = false) : Flush cs :=
  fun c hc => h c (List.mem_of_mem_head? hc)

theorem flush_reverse_of_forall (h : ∀ c ∈ cs, isBlank c = false) : Flush cs.reverse :=
  fun c hc => h c (List.mem_reverse.mp (List.mem_of_mem_head? hc))

@[simp] theorem isBlank_colon : isBlank ':' = false := by decide

@[simp] theorem isBlank_closeParen : isBlank ')' = false := by decide

theorem flush_dropBlanks (cs : List Char) : Flush (dropBlanks cs) := by
  intro c hc
  have h := List.head?_dropWhile_not isBlank cs
  rw [dropBlanks] at hc
  rw [hc] at h
  simpa using h

theorem dropBlanks_eq_self (h : Flush cs) : dropBlanks cs = cs := by
  cases cs with
  | nil => rfl
  | cons c cs => exact List.dropWhile_cons_of_neg (by simp [flush_cons.mp h])

theorem exists_blanks_dropBlanks (cs : List Char) :
    ∃ blanks, (∀ c ∈ blanks, isBlank c = true) ∧ cs = blanks ++ dropBlanks cs :=
  ⟨cs.takeWhile isBlank, fun _ hc => List.mem_takeWhile_imp hc,
    List.takeWhile_append_dropWhile.symm⟩

/-- Trimming takes blanks from both ends. -/
theorem exists_blanks_trimChars (cs : List Char) :
    ∃ before after, (∀ c ∈ before, isBlank c = true) ∧ (∀ c ∈ after, isBlank c = true) ∧
      cs = before ++ (trimChars cs ++ after) := by
  obtain ⟨before, hbefore, hcs⟩ := exists_blanks_dropBlanks cs
  obtain ⟨after, hafter, hds⟩ := exists_blanks_dropBlanks (dropBlanks cs).reverse
  refine ⟨before, after.reverse, hbefore, fun c hc => hafter c (List.mem_reverse.mp hc), ?_⟩
  have hrest : dropBlanks cs = trimChars cs ++ after.reverse := by
    rw [← List.reverse_reverse (dropBlanks cs), hds, List.reverse_append]
    rfl
  rw [← hrest]
  exact hcs

/-- A text that does not end with a blank only has blanks taken from its beginning. -/
theorem exists_blanks_trimChars_of_end (h : Flush cs.reverse) :
    ∃ before, (∀ c ∈ before, isBlank c = true) ∧ cs = before ++ trimChars cs := by
  obtain ⟨before, hbefore, hcs⟩ := exists_blanks_dropBlanks cs
  refine ⟨before, hbefore, ?_⟩
  by_cases hnil : dropBlanks cs = []
  · rw [trimChars, hnil]
    rwa [hnil] at hcs
  · have hend : Flush (dropBlanks cs).reverse := by
      rwa [hcs, flush_reverse_append hnil] at h
    rwa [trimChars, dropBlanksEnd, dropBlanks_eq_self hend, List.reverse_reverse]

theorem flush_trimChars (cs : List Char) : Flush (trimChars cs) := by
  obtain ⟨after, -, hds⟩ := exists_blanks_dropBlanks (dropBlanks cs).reverse
  have hrest : dropBlanks cs = trimChars cs ++ after.reverse := by
    rw [← List.reverse_reverse (dropBlanks cs), hds, List.reverse_append]
    rfl
  have hflush := flush_dropBlanks cs
  rw [hrest] at hflush
  cases htrim : trimChars cs with
  | nil => simp [Flush]
  | cons c ds =>
      rw [htrim, List.cons_append] at hflush
      exact flush_cons.mpr (flush_cons.mp hflush)

theorem flush_reverse_trimChars (cs : List Char) : Flush (trimChars cs).reverse := by
  rw [trimChars, dropBlanksEnd, List.reverse_reverse]
  exact flush_dropBlanks _

theorem trimChars_eq_self (h : Flush cs) (hreverse : Flush cs.reverse) : trimChars cs = cs := by
  rw [trimChars, dropBlanksEnd, dropBlanks_eq_self h, dropBlanks_eq_self hreverse,
    List.reverse_reverse]

theorem trimChars_trimChars (cs : List Char) : trimChars (trimChars cs) = trimChars cs :=
  trimChars_eq_self (flush_trimChars cs) (flush_reverse_trimChars cs)

theorem trimChars_space_cons (cs : List Char) : trimChars (' ' :: cs) = trimChars cs :=
  trimChars_blanks_append (by decide : ∀ c ∈ [' '], isBlank c = true) cs

theorem trimChars_blanks (h : ∀ c ∈ blanks, isBlank c = true) : trimChars blanks = [] := by
  have htrim := trimChars_blanks_append h []
  rwa [List.append_nil] at htrim

theorem mem_of_mem_trimChars (h : c ∈ trimChars cs) : c ∈ cs := by
  obtain ⟨before, after, -, -, hcs⟩ := exists_blanks_trimChars cs
  rw [hcs]
  exact List.mem_append_right _ (List.mem_append_left _ h)

theorem trimChars_of_forall (h : ∀ c ∈ cs, isBlank c = false) : trimChars cs = cs :=
  trimChars_eq_self (flush_of_forall h) (flush_reverse_of_forall h)

/-- Nothing is left of blanks, and of blanks only. -/
theorem trimChars_eq_nil_iff : trimChars cs = [] ↔ ∀ c ∈ cs, isBlank c = true := by
  refine ⟨fun hnil c hc => ?_, trimChars_blanks⟩
  obtain ⟨before, after, hbefore, hafter, hcs⟩ := exists_blanks_trimChars cs
  rw [hcs, hnil, List.nil_append, List.mem_append] at hc
  exact hc.elim (hbefore c) (hafter c)

/-- A text that does not end with a blank has something that stays. -/
theorem trimChars_ne_nil (hne : cs ≠ []) (h : Flush cs.reverse) : trimChars cs ≠ [] := by
  intro hnil
  obtain ⟨c, ds, hds⟩ := List.exists_cons_of_ne_nil (List.reverse_ne_nil_iff.mpr hne)
  have hc : c ∈ cs := by
    rw [← List.mem_reverse, hds]
    exact List.mem_cons_self
  rw [hds, flush_cons, trimChars_eq_nil_iff.mp hnil c hc] at h
  cases h

theorem eq_nil_of_flush_reverse (hblanks : ∀ c ∈ blanks, isBlank c = true)
    (h : Flush (cs ++ blanks).reverse) : blanks = [] := by
  by_contra hne
  exact trimChars_ne_nil hne ((flush_reverse_append hne cs).mp h) (trimChars_blanks hblanks)

/-! ## Cutting a text -/

/-- There is one way to cut a text where the characters of a class end. -/
theorem append_inj_of_class {p : Char → Bool} {xs ys us vs : List Char}
    (hxs : ∀ c ∈ xs, p c = true) (hys : ∀ c ∈ ys, p c = true) (hus : ∀ c ∈ us.head?, p c = false)
    (hvs : ∀ c ∈ vs.head?, p c = false) (h : xs ++ us = ys ++ vs) : xs = ys ∧ us = vs := by
  induction xs generalizing ys with
  | nil =>
      cases ys with
      | nil => exact ⟨rfl, h⟩
      | cons y ys =>
          rw [List.nil_append] at h
          rw [h] at hus
          exact absurd (hys y List.mem_cons_self) (by simp [hus y rfl])
  | cons x xs ih =>
      obtain ⟨hx, hxs⟩ := List.forall_mem_cons.mp hxs
      cases ys with
      | nil =>
          rw [List.nil_append] at h
          rw [← h] at hvs
          exact absurd hx (by simp [hvs x rfl])
      | cons y ys =>
          rw [List.cons_append, List.cons_append, List.cons.injEq] at h
          obtain ⟨rfl, h⟩ := h
          obtain ⟨rfl, rfl⟩ := ih hxs (fun c hc => hys c (List.mem_cons_of_mem _ hc)) h
          exact ⟨rfl, rfl⟩

/-- The same from behind. -/
theorem append_inj_of_class_reverse {p : Char → Bool} {xs ys us vs : List Char}
    (hus : ∀ c ∈ us, p c = true) (hvs : ∀ c ∈ vs, p c = true)
    (hxs : ∀ c ∈ xs.reverse.head?, p c = false) (hys : ∀ c ∈ ys.reverse.head?, p c = false)
    (h : xs ++ us = ys ++ vs) : xs = ys ∧ us = vs := by
  have hreverse := congrArg List.reverse h
  rw [List.reverse_append, List.reverse_append] at hreverse
  obtain ⟨hends, hstarts⟩ := append_inj_of_class (fun c hc => hus c (List.mem_reverse.mp hc))
    (fun c hc => hvs c (List.mem_reverse.mp hc)) hxs hys hreverse
  exact ⟨List.reverse_inj.mp hstarts, List.reverse_inj.mp hends⟩

/-- Blanks before a text that does not begin with one are none. -/
theorem eq_nil_of_blanks_append {rest : List Char} (hblanks : ∀ c ∈ blanks, isBlank c = true)
    (hflush : Flush cs) (h : blanks ++ rest = cs) : blanks = [] ∧ rest = cs := by
  cases blanks with
  | nil => exact ⟨rfl, h⟩
  | cons c blanks =>
      rw [← h, List.cons_append, flush_cons, hblanks c List.mem_cons_self] at hflush
      exact absurd hflush (by simp)

/-- Where one blank stands before such a text, there is one. -/
theorem eq_singleton_of_blanks_append {rest : List Char} (hne : blanks ≠ [])
    (hblanks : ∀ c ∈ blanks, isBlank c = true) (hflush : Flush cs) (h : blanks ++ rest = c :: cs) :
    blanks = [c] ∧ rest = cs := by
  obtain ⟨d, blanks, rfl⟩ := List.exists_cons_of_ne_nil hne
  rw [List.cons_append, List.cons.injEq] at h
  obtain ⟨rfl, h⟩ := h
  obtain ⟨rfl, rfl⟩ := eq_nil_of_blanks_append (fun c hc => hblanks c (List.mem_cons_of_mem _ hc)) hflush h
  exact ⟨rfl, rfl⟩

/-- A class of characters that holds no blank is left where blanks stand. -/
theorem head_blanks_append {p : Char → Bool} {rest : List Char} (hp : ∀ c, isBlank c = true → p c = false)
    (hblanks : ∀ c ∈ blanks, isBlank c = true) (hrest : ∀ c ∈ rest.head?, p c = false) :
    ∀ c ∈ (blanks ++ rest).head?, p c = false := by
  cases blanks with
  | nil => exact hrest
  | cons b blanks =>
      rintro c ⟨⟩
      exact hp b (hblanks b List.mem_cons_self)

/-! ## Words -/

/-- The blanks, as numbers. -/
def blankCodes : List Nat :=
  [0x09, 0x0A, 0x0B, 0x0C, 0x0D, 0x20, 0x85, 0xA0, 0x1680, 0x2000, 0x2001, 0x2002, 0x2003, 0x2004,
    0x2005, 0x2006, 0x2007, 0x2008, 0x2009, 0x200A, 0x2028, 0x2029, 0x202F, 0x205F, 0x3000]

theorem toNat_mem_blankCodes (h : isBlank c = true) : c.toNat ∈ blankCodes := by
  simp only [isBlank, Bool.or_eq_true, Bool.and_eq_true, decide_eq_true_eq, beq_iff_eq] at h
  simp only [blankCodes, List.mem_cons, List.not_mem_nil, or_false]
  omega

theorem isWord_eq_false_of_isBlank (h : isBlank c = true) : isWord c = false := by
  have hall : ∀ n ∈ blankCodes, isWord (Char.ofNat n) = false := by decide +kernel
  have hc := hall c.toNat (toNat_mem_blankCodes h)
  rwa [Char.ofNat_toNat] at hc

theorem isBlank_eq_false_of_isWord (h : isWord c = true) : isBlank c = false := by
  cases hblank : isBlank c with
  | false => rfl
  | true => rw [isWord_eq_false_of_isBlank hblank] at h; cases h

theorem trimChars_of_isWord (h : ∀ c ∈ cs, isWord c = true) : trimChars cs = cs :=
  trimChars_of_forall fun c hc => isBlank_eq_false_of_isWord (h c hc)

end Blockwork.Text
