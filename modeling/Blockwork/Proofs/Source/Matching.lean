import Blockwork.Source.Recognition

/-!
# `Blockwork.Proofs.Source.Matching`: what it means for a line to fit a pattern

The search for the parts of a line tries the ways of dividing it one after another. Whether there is
one, and what is known of any of them, does not depend on the order: a line fits a pattern if it can be
divided among the pieces at all. Only where a piece takes as little as it can does the order say more,
namely that no shorter part would have done.

## Contents
- `Pattern.Fits`, and what it says about the common sequences.
- `Pattern.exists_fits`, `Pattern.Fits.isSome_parts?`: the search finds a division if there is one.
- `Pattern.parts?_shortRun`: a shortest part is the shortest; `Pattern.parts?_perhaps`.
- `Pattern.clashes`: a pattern that begins with another word does not matter.
- `exists_rule_of_recognise?`, `exists_recognise?_of_fits`: the rule that counts.
-/

namespace Blockwork.Source

variable {α : Type}

namespace Pattern

/-! ## Fitting -/

/-- The text can be divided among the pieces of the pattern, the named parts being these. -/
inductive Fits : Pattern → List (String × List Char) → List Char → Prop where
  | nil : Fits [] [] []
  | word {text cs : List Char} {ps : Pattern} {parts : List (String × List Char)}
      (after : Fits ps parts cs) : Fits (.word text :: ps) parts (text ++ cs)
  | one {p : Char → Bool} {c : Char} {cs : List Char} {ps : Pattern}
      {parts : List (String × List Char)} (hc : p c = true) (after : Fits ps parts cs) :
      Fits (.one p :: ps) parts (c :: cs)
  | many {p : Char → Bool} {run cs : List Char} {ps : Pattern} {parts : List (String × List Char)}
      (hrun : ∀ c ∈ run, p c = true) (after : Fits ps parts cs) :
      Fits (.many p :: ps) parts (run ++ cs)
  | few {p : Char → Bool} {run cs : List Char} {ps : Pattern} {parts : List (String × List Char)}
      (hrun : ∀ c ∈ run, p c = true) (after : Fits ps parts cs) :
      Fits (.few p :: ps) parts (run ++ cs)
  | named {name : String} {inner ps : Pattern} {inside parts : List (String × List Char)}
      {cs ds : List Char} (within : Fits inner inside cs) (after : Fits ps parts ds) :
      Fits (.named name inner :: ps) (inside ++ (name, cs) :: parts) (cs ++ ds)
  | present {inner ps : Pattern} {inside parts : List (String × List Char)} {cs ds : List Char}
      (within : Fits inner inside cs) (after : Fits ps parts ds) :
      Fits (.optional inner :: ps) (inside ++ parts) (cs ++ ds)
  | absent {inner ps : Pattern} {parts : List (String × List Char)} {cs : List Char}
      (after : Fits ps parts cs) : Fits (.optional inner :: ps) parts cs

variable {p q : Char → Bool} {inner ps qs : Pattern} {parts : List (String × List Char)}
  {cs : List Char}

theorem fits_nil : Fits [] parts cs ↔ parts = [] ∧ cs = [] := by
  constructor
  · intro h
    cases h
    exact ⟨rfl, rfl⟩
  · rintro ⟨rfl, rfl⟩
    exact .nil

theorem fits_append : Fits (ps ++ qs) parts cs ↔
    ∃ before after ds es, parts = before ++ after ∧ cs = ds ++ es ∧ Fits ps before ds ∧
      Fits qs after es := by
  constructor
  · intro h
    induction ps generalizing parts cs with
    | nil => exact ⟨[], parts, [], cs, rfl, rfl, .nil, h⟩
    | cons piece ps ih =>
        rw [List.cons_append] at h
        cases h with
        | word h =>
            obtain ⟨before, after, ds, es, rfl, rfl, hps, hqs⟩ := ih h
            exact ⟨before, after, _, es, rfl, (List.append_assoc ..).symm, .word hps, hqs⟩
        | one hc h =>
            obtain ⟨before, after, ds, es, rfl, rfl, hps, hqs⟩ := ih h
            exact ⟨before, after, _, es, rfl, rfl, .one hc hps, hqs⟩
        | many hrun h =>
            obtain ⟨before, after, ds, es, rfl, rfl, hps, hqs⟩ := ih h
            exact ⟨before, after, _, es, rfl, (List.append_assoc ..).symm, .many hrun hps, hqs⟩
        | few hrun h =>
            obtain ⟨before, after, ds, es, rfl, rfl, hps, hqs⟩ := ih h
            exact ⟨before, after, _, es, rfl, (List.append_assoc ..).symm, .few hrun hps, hqs⟩
        | named within h =>
            obtain ⟨before, after, ds, es, rfl, rfl, hps, hqs⟩ := ih h
            refine ⟨_, after, _, es, ?_, (List.append_assoc ..).symm, .named within hps, hqs⟩
            rw [List.append_assoc, List.cons_append]
        | present within h =>
            obtain ⟨before, after, ds, es, rfl, rfl, hps, hqs⟩ := ih h
            exact ⟨_, after, _, es, (List.append_assoc ..).symm, (List.append_assoc ..).symm,
              .present within hps, hqs⟩
        | absent h =>
            obtain ⟨before, after, ds, es, rfl, rfl, hps, hqs⟩ := ih h
            exact ⟨before, after, ds, es, rfl, rfl, .absent hps, hqs⟩
  · rintro ⟨before, after, ds, es, rfl, rfl, hps, hqs⟩
    induction hps with
    | nil => exact hqs
    | word _ ih => exact List.append_assoc .. ▸ .word ih
    | one hc _ ih => exact .one hc ih
    | many hrun _ ih => exact List.append_assoc .. ▸ .many hrun ih
    | few hrun _ ih => exact List.append_assoc .. ▸ .few hrun ih
    | named within _ _ ih =>
        rw [List.append_assoc, List.append_assoc, List.cons_append]
        exact .named within ih
    | present within _ _ ih =>
        rw [List.append_assoc, List.append_assoc]
        exact .present within ih
    | absent _ ih => exact .absent ih

/-- The named parts are parts of the text. -/
theorem mem_of_fits (h : Fits ps parts cs) {name : String} {value : List Char}
    (hvalue : (name, value) ∈ parts) {c : Char} (hc : c ∈ value) : c ∈ cs := by
  induction h with
  | nil => cases hvalue
  | word _ ih => exact List.mem_append_right _ (ih hvalue)
  | one _ _ ih => exact List.mem_cons_of_mem _ (ih hvalue)
  | many _ _ ih => exact List.mem_append_right _ (ih hvalue)
  | few _ _ ih => exact List.mem_append_right _ (ih hvalue)
  | named _ _ ihWithin ih =>
      rw [List.mem_append, List.mem_cons] at hvalue
      rcases hvalue with hvalue | hvalue | hvalue
      · exact List.mem_append_left _ (ihWithin hvalue)
      · obtain ⟨-, rfl⟩ := Prod.mk.inj hvalue
        exact List.mem_append_left _ hc
      · exact List.mem_append_right _ (ih hvalue)
  | present _ _ ihWithin ih =>
      rcases List.mem_append.mp hvalue with hvalue | hvalue
      · exact List.mem_append_left _ (ihWithin hvalue)
      · exact List.mem_append_right _ (ih hvalue)
  | absent _ ih => exact ih hvalue

/-! ## Common sequences -/

theorem fits_text {s : String} : Fits (text s) parts cs ↔ parts = [] ∧ cs = s.toList := by
  constructor
  · intro h
    cases h with
    | word h =>
        obtain ⟨rfl, rfl⟩ := fits_nil.mp h
        exact ⟨rfl, List.append_nil _⟩
  · rintro ⟨rfl, rfl⟩
    exact List.append_nil s.toList ▸ Fits.word .nil

theorem fits_many : Fits [.many p] parts cs ↔ parts = [] ∧ ∀ c ∈ cs, p c = true := by
  constructor
  · intro h
    cases h with
    | many hrun h =>
        obtain ⟨rfl, rfl⟩ := fits_nil.mp h
        exact ⟨rfl, by rwa [List.append_nil]⟩
  · rintro ⟨rfl, hrun⟩
    exact List.append_nil cs ▸ Fits.many hrun .nil

theorem fits_gap : Fits gap parts cs ↔ parts = [] ∧ ∀ c ∈ cs, Text.isBlank c = true :=
  fits_many

theorem fits_one : Fits [.one p] parts cs ↔ parts = [] ∧ ∃ c, cs = [c] ∧ p c = true := by
  constructor
  · intro h
    cases h with
    | one hc h =>
        obtain ⟨rfl, rfl⟩ := fits_nil.mp h
        exact ⟨rfl, _, rfl, hc⟩
  · rintro ⟨rfl, c, rfl, hc⟩
    exact .one hc .nil

theorem fits_one_many : Fits [.one p, .many q] parts cs ↔
    parts = [] ∧ ∃ c run, cs = c :: run ∧ p c = true ∧ ∀ d ∈ run, q d = true := by
  constructor
  · intro h
    cases h with
    | one hc h =>
        obtain ⟨rfl, hrun⟩ := fits_many.mp h
        exact ⟨rfl, _, _, rfl, hc, hrun⟩
  · rintro ⟨rfl, c, run, rfl, hc, hrun⟩
    exact .one hc (fits_many.mpr ⟨rfl, hrun⟩)

theorem fits_run : Fits (run p) parts cs ↔ parts = [] ∧ cs ≠ [] ∧ ∀ c ∈ cs, p c = true := by
  rw [run, fits_one_many]
  refine and_congr_right fun _ => ?_
  constructor
  · rintro ⟨c, cs, rfl, hc, hrun⟩
    exact ⟨List.cons_ne_nil _ _, List.forall_mem_cons.mpr ⟨hc, hrun⟩⟩
  · rintro ⟨hne, hall⟩
    obtain ⟨c, cs, rfl⟩ := List.exists_cons_of_ne_nil hne
    exact ⟨c, cs, rfl, List.forall_mem_cons.mp hall⟩

theorem fits_shortRun :
    Fits (shortRun p) parts cs ↔ parts = [] ∧ cs ≠ [] ∧ ∀ c ∈ cs, p c = true := by
  rw [← fits_run]
  constructor
  · intro h
    cases h with
    | one hc h =>
        cases h with
        | few hrun h => exact .one hc (.many hrun h)
  · intro h
    cases h with
    | one hc h =>
        cases h with
        | many hrun h => exact .one hc (.few hrun h)

theorem fits_space : Fits space parts cs ↔
    parts = [] ∧ cs ≠ [] ∧ ∀ c ∈ cs, Text.isBlank c = true :=
  fits_run

theorem fits_parameter {name : String} : Fits (parameter name inner) parts cs ↔
    ∃ inside, Fits inner inside cs ∧ parts = inside ++ [(name, cs)] := by
  constructor
  · intro h
    cases h with
    | named within h =>
        obtain ⟨rfl, rfl⟩ := fits_nil.mp h
        rw [List.append_nil]
        exact ⟨_, within, rfl⟩
  · rintro ⟨inside, within, rfl⟩
    have h : Fits (parameter name inner) (inside ++ [(name, cs)]) (cs ++ []) := .named within .nil
    rwa [List.append_nil] at h

theorem fits_perhaps : Fits (perhaps inner) parts cs ↔ Fits inner parts cs ∨ parts = [] ∧ cs = [] := by
  constructor
  · intro h
    cases h with
    | present within h =>
        obtain ⟨rfl, rfl⟩ := fits_nil.mp h
        rw [List.append_nil, List.append_nil]
        exact Or.inl within
    | absent h => exact Or.inr (fits_nil.mp h)
  · rintro (within | ⟨rfl, rfl⟩)
    · have h := Fits.present within .nil
      rwa [List.append_nil, List.append_nil] at h
    · exact .absent .nil

/-! ### Followed by other pieces -/

theorem fits_text_append {s : String} :
    Fits (text s ++ ps) parts cs ↔ ∃ rest, cs = s.toList ++ rest ∧ Fits ps parts rest := by
  rw [fits_append]
  constructor
  · rintro ⟨_, after, _, rest, rfl, rfl, hs, h⟩
    obtain ⟨rfl, rfl⟩ := fits_text.mp hs
    exact ⟨rest, rfl, h⟩
  · rintro ⟨rest, rfl, h⟩
    exact ⟨[], parts, _, rest, rfl, rfl, fits_text.mpr ⟨rfl, rfl⟩, h⟩

theorem fits_gap_append : Fits (gap ++ ps) parts cs ↔
    ∃ blanks rest, (∀ c ∈ blanks, Text.isBlank c = true) ∧ cs = blanks ++ rest ∧
      Fits ps parts rest := by
  rw [fits_append]
  constructor
  · rintro ⟨_, after, blanks, rest, rfl, rfl, hgap, h⟩
    obtain ⟨rfl, hblanks⟩ := fits_gap.mp hgap
    exact ⟨blanks, rest, hblanks, rfl, h⟩
  · rintro ⟨blanks, rest, hblanks, rfl, h⟩
    exact ⟨[], parts, blanks, rest, rfl, rfl, fits_gap.mpr ⟨rfl, hblanks⟩, h⟩

theorem fits_run_append : Fits (run p ++ ps) parts cs ↔
    ∃ first rest, first ≠ [] ∧ (∀ c ∈ first, p c = true) ∧ cs = first ++ rest ∧
      Fits ps parts rest := by
  rw [fits_append]
  constructor
  · rintro ⟨_, after, first, rest, rfl, rfl, hrun, h⟩
    obtain ⟨rfl, hne, hall⟩ := fits_run.mp hrun
    exact ⟨first, rest, hne, hall, rfl, h⟩
  · rintro ⟨first, rest, hne, hall, rfl, h⟩
    exact ⟨[], parts, first, rest, rfl, rfl, fits_run.mpr ⟨rfl, hne, hall⟩, h⟩

theorem fits_space_append : Fits (space ++ ps) parts cs ↔
    ∃ blanks rest, blanks ≠ [] ∧ (∀ c ∈ blanks, Text.isBlank c = true) ∧ cs = blanks ++ rest ∧
      Fits ps parts rest :=
  fits_run_append

theorem fits_parameter_append {name : String} : Fits (parameter name inner ++ ps) parts cs ↔
    ∃ inside value after rest, Fits inner inside value ∧ parts = inside ++ (name, value) :: after ∧
      cs = value ++ rest ∧ Fits ps after rest := by
  rw [fits_append]
  constructor
  · rintro ⟨_, after, value, rest, rfl, rfl, hparameter, h⟩
    obtain ⟨inside, hinner, rfl⟩ := fits_parameter.mp hparameter
    exact ⟨inside, value, after, rest, hinner, List.append_assoc .., rfl, h⟩
  · rintro ⟨inside, value, after, rest, hinner, rfl, rfl, h⟩
    exact ⟨_, after, value, rest, List.append_cons .., rfl,
      fits_parameter.mpr ⟨inside, hinner, rfl⟩, h⟩

theorem fits_perhaps_append :
    Fits (perhaps inner ++ ps) parts cs ↔ Fits (inner ++ ps) parts cs ∨ Fits ps parts cs := by
  constructor
  · intro h
    cases h with
    | present within h => exact Or.inl (fits_append.mpr ⟨_, _, _, _, rfl, rfl, within, h⟩)
    | absent h => exact Or.inr h
  · rintro (h | h)
    · obtain ⟨_, _, _, _, rfl, rfl, within, h⟩ := fits_append.mp h
      exact .present within h
    · exact .absent h

/-! ## The search finds a division -/

theorem exists_run_of_firstAfterMany {next : List Char → Option α} {a : α}
    (h : firstAfterMany p next cs = some a) :
    ∃ run rest, cs = run ++ rest ∧ (∀ c ∈ run, p c = true) ∧ next rest = some a := by
  induction cs with
  | nil => exact ⟨[], [], rfl, by simp, h⟩
  | cons c cs ih =>
      rw [firstAfterMany] at h
      split at h
      · rename_i hc
        split at h
        · rename_i b hb
          obtain ⟨run, rest, rfl, hrun, hnext⟩ := ih (hb.trans h)
          exact ⟨c :: run, rest, rfl, List.forall_mem_cons.mpr ⟨hc, hrun⟩, hnext⟩
        · exact ⟨[], c :: cs, rfl, by simp, h⟩
      · exact ⟨[], c :: cs, rfl, by simp, h⟩

theorem isSome_firstAfterMany {next : List Char → Option α} {run rest : List Char}
    (hrun : ∀ c ∈ run, p c = true) (hnext : (next rest).isSome = true) :
    (firstAfterMany p next (run ++ rest)).isSome = true := by
  induction run with
  | nil =>
      cases rest with
      | nil => exact hnext
      | cons c rest =>
          rw [List.nil_append, firstAfterMany]
          split
          · split
            · rfl
            · exact hnext
          · exact hnext
  | cons c run ih =>
      obtain ⟨hc, hrun⟩ := List.forall_mem_cons.mp hrun
      rw [List.cons_append, firstAfterMany, if_pos hc]
      obtain ⟨a, ha⟩ := Option.isSome_iff_exists.mp (ih hrun)
      rw [ha]
      rfl

/-- The run after which the answer was found, shorter runs having given none. -/
theorem exists_run_of_firstAfterFew {next : List Char → Option α} {a : α}
    (h : firstAfterFew p next cs = some a) :
    ∃ run rest, cs = run ++ rest ∧ (∀ c ∈ run, p c = true) ∧ next rest = some a ∧
      ∀ u v, run = u ++ v → v ≠ [] → next (v ++ rest) = none := by
  induction cs with
  | nil =>
      refine ⟨[], [], rfl, by simp, h, fun u v huv hv => ?_⟩
      exact absurd (List.append_eq_nil_iff.mp huv.symm).2 hv
  | cons c cs ih =>
      rw [firstAfterFew] at h
      split at h
      · rename_i b hb
        refine ⟨[], c :: cs, rfl, by simp, hb.trans h, fun u v huv hv => ?_⟩
        exact absurd (List.append_eq_nil_iff.mp huv.symm).2 hv
      · rename_i hnone
        split at h
        · rename_i hc
          obtain ⟨run, rest, rfl, hrun, hnext, hshort⟩ := ih h
          refine ⟨c :: run, rest, rfl, List.forall_mem_cons.mpr ⟨hc, hrun⟩, hnext,
            fun u v huv hv => ?_⟩
          cases u with
          | nil =>
              rw [List.nil_append] at huv
              rw [← huv]
              exact hnone
          | cons d u => exact hshort u v (List.cons.inj huv).2 hv
        · cases h

theorem isSome_firstAfterFew {next : List Char → Option α} {run rest : List Char}
    (hrun : ∀ c ∈ run, p c = true) (hnext : (next rest).isSome = true) :
    (firstAfterFew p next (run ++ rest)).isSome = true := by
  induction run with
  | nil =>
      cases rest with
      | nil => exact hnext
      | cons c rest =>
          obtain ⟨a, ha⟩ := Option.isSome_iff_exists.mp hnext
          rw [List.nil_append, firstAfterFew, ha]
          rfl
  | cons c run ih =>
      obtain ⟨hc, hrun⟩ := List.forall_mem_cons.mp hrun
      rw [List.cons_append, firstAfterFew, if_pos hc]
      split
      · rfl
      · exact ih hrun

/-- Induction over the pieces of a pattern and over what is inside them. -/
theorem induction {motive : Pattern → Prop} (nil : motive [])
    (word : ∀ text ps, motive ps → motive (.word text :: ps))
    (one : ∀ p ps, motive ps → motive (.one p :: ps))
    (many : ∀ p ps, motive ps → motive (.many p :: ps))
    (few : ∀ p ps, motive ps → motive (.few p :: ps))
    (named : ∀ name inner ps, motive inner → motive ps → motive (.named name inner :: ps))
    (optional : ∀ inner ps, motive inner → motive ps → motive (.optional inner :: ps)) :
    ∀ ps, motive ps
  | [] => nil
  | .word text :: ps => word text ps (induction nil word one many few named optional ps)
  | .one p :: ps => one p ps (induction nil word one many few named optional ps)
  | .many p :: ps => many p ps (induction nil word one many few named optional ps)
  | .few p :: ps => few p ps (induction nil word one many few named optional ps)
  | .named name inner :: ps =>
      named name inner ps (induction nil word one many few named optional inner)
        (induction nil word one many few named optional ps)
  | .optional inner :: ps =>
      optional inner ps (induction nil word one many few named optional inner)
        (induction nil word one many few named optional ps)

/-- Named parts with their characters. -/
def texts (parts : Parts) : List (String × List Char) :=
  parts.map fun (name, span) => (name, span.text)

/-- **An answer of the search comes from a division of the text**: the pieces take some of it, and the
    answer is given on the parts that were found and the rest. -/
theorem exists_fits_of_first? {next : Parts → List Char → Option α} {found : Parts} {a : α}
    (h : first? ps next found cs = some a) :
    ∃ parts taken rest, cs = taken ++ rest ∧ Fits ps (texts parts) taken ∧
      next (found ++ parts) rest = some a := by
  induction ps using induction generalizing next found cs with
  | nil =>
      rw [first?] at h
      exact ⟨[], [], cs, rfl, .nil, by rwa [List.append_nil]⟩
  | word text ps ih =>
      rw [first?, Piece.first?] at h
      obtain ⟨rest, hafter, h⟩ := Option.bind_eq_some_iff.mp h
      obtain ⟨parts, taken, rest, rfl, hfits, hnext⟩ := ih h
      rw [after?_eq_some_iff] at hafter
      exact ⟨parts, text ++ taken, rest, by rw [hafter, List.append_assoc], .word hfits, hnext⟩
  | one p ps ih =>
      cases cs with
      | nil =>
          rw [first?, Piece.first?] at h
          cases h
      | cons c cs =>
          rw [first?, Piece.first?] at h
          split at h
          · rename_i hc
            obtain ⟨parts, taken, rest, rfl, hfits, hnext⟩ := ih h
            exact ⟨parts, c :: taken, rest, rfl, .one hc hfits, hnext⟩
          · cases h
  | many p ps ih =>
      rw [first?, Piece.first?] at h
      obtain ⟨run, rest, rfl, hrun, h⟩ := exists_run_of_firstAfterMany h
      obtain ⟨parts, taken, rest, rfl, hfits, hnext⟩ := ih h
      exact ⟨parts, run ++ taken, rest, (List.append_assoc ..).symm, .many hrun hfits, hnext⟩
  | few p ps ih =>
      rw [first?, Piece.first?] at h
      obtain ⟨run, rest, rfl, hrun, h, -⟩ := exists_run_of_firstAfterFew h
      obtain ⟨parts, taken, rest, rfl, hfits, hnext⟩ := ih h
      exact ⟨parts, run ++ taken, rest, (List.append_assoc ..).symm, .few hrun hfits, hnext⟩
  | named name inner ps ihInner ih =>
      rw [first?, Piece.first?] at h
      obtain ⟨inside, cs, rest, rfl, hinner, h⟩ := ihInner h
      obtain ⟨parts, taken, rest, rfl, hfits, hnext⟩ := ih h
      -- The span of the part goes from what the inner pieces were given to what they left.
      refine ⟨inside ++ (name, ⟨cs ++ (taken ++ rest), taken ++ rest⟩) :: parts, cs ++ taken, rest,
        (List.append_assoc ..).symm, ?_, ?_⟩
      · have htexts : texts (inside ++ (name, ⟨cs ++ (taken ++ rest), taken ++ rest⟩) :: parts)
            = texts inside ++ (name, cs) :: texts parts := by
          simp only [texts, List.map_append, List.map_cons, Span.text_append]
        rw [htexts]
        exact .named hinner hfits
      · rwa [List.append_assoc, List.append_assoc, List.singleton_append] at hnext
  | optional inner ps ihInner ih =>
      rw [first?, Piece.first?] at h
      split at h
      · rename_i b hb
        obtain ⟨inside, cs, rest, rfl, hinner, hb⟩ := ihInner (hb.trans h)
        obtain ⟨parts, taken, rest, rfl, hfits, hnext⟩ := ih hb
        refine ⟨inside ++ parts, cs ++ taken, rest, (List.append_assoc ..).symm, ?_, ?_⟩
        · rw [texts, List.map_append]
          exact .present hinner hfits
        · rwa [List.append_assoc] at hnext
      · obtain ⟨parts, taken, rest, rfl, hfits, hnext⟩ := ih h
        exact ⟨parts, taken, rest, rfl, .absent hfits, hnext⟩

/-- **If there is a division of the text, the search finds one.** -/
theorem Fits.isSome_first? (h : Fits ps parts cs) (next : Parts → List Char → Option α)
    (rest : List Char) (hnext : ∀ found, (next found rest).isSome = true) (found : Parts) :
    (first? ps next found (cs ++ rest)).isSome = true := by
  induction h generalizing next rest found with
  | nil => exact hnext found
  | @word text cs ps parts _ ih =>
      have hafter : after? text (text ++ cs ++ rest) = some (cs ++ rest) := by
        rw [after?_eq_some_iff, List.append_assoc]
      rw [first?, Piece.first?, hafter]
      exact ih next rest hnext found
  | one hc _ ih =>
      rw [List.cons_append, first?, Piece.first?, if_pos hc]
      exact ih next rest hnext found
  | many hrun _ ih =>
      rw [List.append_assoc, first?, Piece.first?]
      exact isSome_firstAfterMany hrun (ih next rest hnext found)
  | few hrun _ ih =>
      rw [List.append_assoc, first?, Piece.first?]
      exact isSome_firstAfterFew hrun (ih next rest hnext found)
  | named within _ ihWithin ih =>
      rw [List.append_assoc, first?, Piece.first?]
      refine ihWithin _ _ (fun found => ?_) found
      exact ih next rest hnext _
  | present within _ ihWithin ih =>
      rw [List.append_assoc, first?, Piece.first?]
      obtain ⟨a, ha⟩ := Option.isSome_iff_exists.mp
        (ihWithin _ _ (fun found => ih next rest hnext found) found)
      rw [ha]
      rfl
  | absent _ ih =>
      rw [first?, Piece.first?]
      split
      · rfl
      · exact ih next rest hnext found

theorem atEnd_eq_some {found : Parts} {rest : List Char} {a : Parts} (h : atEnd found rest = some a) :
    rest = [] ∧ a = found := by
  cases rest with
  | nil => exact ⟨rfl, (Option.some.inj h).symm⟩
  | cons => cases h

/-- The parts without the blanks around them. -/
def trimmed (parts : List (String × List Char)) : List (String × List Char) :=
  parts.map fun (name, cs) => (name, Text.trimChars cs)

@[simp] theorem trimmed_nil : trimmed [] = [] := rfl

@[simp] theorem trimmed_cons (name : String) (cs : List Char) (parts : List (String × List Char)) :
    trimmed ((name, cs) :: parts) = (name, Text.trimChars cs) :: trimmed parts := rfl

theorem trimmed_texts (spans : Parts) :
    trimmed (texts spans) = spans.map fun (name, span) => (name, Text.trimChars span.text) := by
  rw [trimmed, texts, List.map_map]
  rfl

theorem exists_fits {line : List Char} {values : List (String × List Char)}
    (h : ps.parts? line = some values) : ∃ parts, Fits ps parts line ∧ values = trimmed parts := by
  obtain ⟨spans, hspans, rfl⟩ := Option.map_eq_some_iff.mp h
  obtain ⟨parts, taken, rest, rfl, hfits, hend⟩ := exists_fits_of_first? hspans
  obtain ⟨rfl, hparts⟩ := atEnd_eq_some hend
  rw [List.nil_append] at hparts
  rw [List.append_nil, hparts, ← trimmed_texts]
  exact ⟨texts parts, hfits, rfl⟩

theorem Fits.isSome_parts? (h : Fits ps parts cs) : (ps.parts? cs).isSome = true := by
  have hfirst := h.isSome_first? atEnd [] (fun _ => rfl) []
  rw [List.append_nil] at hfirst
  rw [parts?, Option.isSome_map]
  exact hfirst

/-! ## Shortest parts -/

theorem first?_append (ps qs : Pattern) (next : Parts → List Char → Option α) (found : Parts)
    (cs : List Char) :
    first? (ps ++ qs) next found cs = first? ps (fun found rest => first? qs next found rest) found cs := by
  induction ps generalizing found cs with
  | nil => rfl
  | cons piece ps ih =>
      rw [List.cons_append, first?, first?]
      congr 1
      funext found rest
      exact ih found rest

/-- **A part that is as short as possible is the shortest after which the rest fits.** -/
theorem parts?_shortRun {lead tail : Pattern} {name : String} {line : List Char}
    {values : List (String × List Char)}
    (h : (lead ++ (parameter name (shortRun p) ++ tail)).parts? line = some values) :
    ∃ before after head part rest, line = head ++ (part ++ rest) ∧ Fits lead before head ∧
      part ≠ [] ∧ (∀ c ∈ part, p c = true) ∧ Fits tail after rest ∧
      values = trimmed (before ++ (name, part) :: after) ∧
      ∀ u v, part = u ++ v → u ≠ [] → v ≠ [] → ∀ parts, ¬Fits tail parts (v ++ rest) := by
  obtain ⟨spans, hspans, rfl⟩ := Option.map_eq_some_iff.mp h
  rw [first?_append] at hspans
  obtain ⟨before, head, cs, rfl, hlead, hspans⟩ := exists_fits_of_first? hspans
  rw [first?_append] at hspans
  cases cs with
  | nil => cases hspans
  | cons c cs =>
      -- The first character is taken in any case; the run after it is as short as it can be.
      change (if p c then _ else _) = _ at hspans
      split at hspans
      · rename_i hc
        obtain ⟨run, rest, rfl, hrun, hnext, hshort⟩ := exists_run_of_firstAfterFew hspans
        simp only [first?] at hnext hshort
        obtain ⟨after, taken, rest, rfl, htail, hend⟩ := exists_fits_of_first? hnext
        obtain ⟨rfl, rfl⟩ := atEnd_eq_some hend
        rw [List.append_nil] at hshort ⊢
        refine ⟨texts before, texts after, head, c :: run, taken, rfl, hlead, List.cons_ne_nil _ _,
          List.forall_mem_cons.mpr ⟨hc, hrun⟩, htail, ?_, fun u v huv hu hv parts hfits => ?_⟩
        · have hspan : Span.text ⟨c :: (run ++ taken), taken⟩ = c :: run :=
            Span.text_append (c :: run) taken
          rw [← trimmed_texts, List.nil_append, List.append_assoc]
          simp only [texts, List.map_append, List.map_cons, List.singleton_append, hspan]
        · cases u with
          | nil => exact absurd rfl hu
          | cons d u =>
              have hnone := hshort u v (List.cons.inj huv).2 hv
              have hsome := hfits.isSome_first? atEnd [] (fun _ => rfl)
                ([] ++ before ++ [(name, ⟨c :: (run ++ taken), v ++ taken⟩)])
              rw [List.append_nil] at hsome
              exact absurd hsome (by rw [hnone]; exact Bool.false_ne_true)
      · cases hspans

/-- What may be missing is looked for first. -/
theorem parts?_perhaps (s : String) (inner tail : Pattern) (line : List Char) :
    (text s ++ (perhaps inner ++ tail)).parts? line
      = ((text s ++ (inner ++ tail)).parts? line).or ((text s ++ tail).parts? line) := by
  simp only [parts?, first?_append, text, first?, Piece.first?]
  cases after? s.toList line with
  | none => rfl
  | some rest =>
      simp only [Option.bind_some, perhaps, first?, Piece.first?]
      split
      · rename_i a ha
        rw [ha]
        rfl
      · rename_i hnone
        rw [hnone]
        rfl

/-! ## Rules -/

/-- Whether a line that begins with `lead` can be told not to fit by its first characters. -/
def clashes (lead : List Char) : Pattern → Bool
  | .word text :: _ => (text.zip lead).any fun (c, d) => c != d
  | _ => false

theorem not_fits_of_clashes {lead : List Char} (h : ps.clashes lead = true) (rest : List Char) :
    ¬Fits ps parts (lead ++ rest) := by
  intro hfits
  generalize hline : lead ++ rest = line at hfits
  cases hfits with
  | @word text cs ps parts after =>
      obtain ⟨⟨c, d⟩, hmem, hcd⟩ := List.any_eq_true.mp h
      obtain ⟨k, hk, hget⟩ := List.getElem_of_mem hmem
      rw [List.length_zip] at hk
      rw [List.getElem_zip, Prod.mk.injEq] at hget
      have hsame : (lead ++ rest)[k]? = (text ++ cs)[k]? := by rw [hline]
      rw [List.getElem?_append_left (by omega), List.getElem?_append_left (by omega),
        List.getElem?_eq_getElem (by omega), List.getElem?_eq_getElem (by omega), hget.1, hget.2] at hsame
      exact absurd (Option.some.inj hsame).symm (by simpa using hcd)
  | _ => exact absurd h Bool.false_ne_true

end Pattern

namespace Rule

variable {rule : Rule} {line : List Char} {r : Reading}

theorem exists_fits (h : rule.reading? line = some r) :
    ∃ parts, rule.pattern.Fits parts line ∧ r = ⟨rule.block, Pattern.trimmed parts⟩ := by
  obtain ⟨values, hvalues, rfl⟩ := Option.map_eq_some_iff.mp h
  obtain ⟨parts, hfits, rfl⟩ := Pattern.exists_fits hvalues
  exact ⟨parts, hfits, rfl⟩

theorem isSome_reading? {parts : List (String × List Char)} (h : rule.pattern.Fits parts line) :
    (rule.reading? line).isSome = true := by
  rw [reading?, Option.isSome_map]
  exact h.isSome_parts?

theorem not_fits (h : rule.reading? line = none) (parts : List (String × List Char)) :
    ¬rule.pattern.Fits parts line := by
  intro hfits
  have hsome := isSome_reading? hfits
  rw [h] at hsome
  exact absurd hsome Bool.false_ne_true

end Rule

/-- The rule that counts, none of the rules before it being one that the line fits. -/
theorem exists_rule_of_recognise? {line : List Char} {r : Reading} (h : recognise? line = some r) :
    ∃ k, ∃ hk : k < rules.length, rules[k].reading? line = some r ∧
      ∀ j (hj : j < k), rules[j].reading? line = none := by
  obtain ⟨before, rule, after, hrules, hrule, hnone⟩ := List.findSome?_eq_some_iff.mp h
  refine ⟨before.length, by simp [hrules], ?_, fun j hj => ?_⟩
  · simpa [hrules] using hrule
  · refine hnone _ ?_
    simp only [hrules, List.getElem_append_left hj]
    exact List.getElem_mem hj

/-- A line that fits a rule is read by it or by a rule before it. -/
theorem exists_recognise?_of_fits {k : Nat} (hk : k < rules.length) {line : List Char}
    {parts : List (String × List Char)} (h : rules[k].pattern.Fits parts line) :
    ∃ j r, ∃ hj : j ≤ k, recognise? line = some r ∧ rules[j].reading? line = some r := by
  have hsome : (recognise? line).isSome = true := by
    rw [recognise?, List.findSome?_isSome_iff]
    exact ⟨rules[k], List.getElem_mem hk, Rule.isSome_reading? h⟩
  obtain ⟨r, hr⟩ := Option.isSome_iff_exists.mp hsome
  obtain ⟨j, hj, hreading, hbefore⟩ := exists_rule_of_recognise? hr
  refine ⟨j, r, Nat.le_of_not_lt fun hlt => ?_, hr, hreading⟩
  exact Rule.not_fits (hbefore k hlt) parts h

end Blockwork.Source
