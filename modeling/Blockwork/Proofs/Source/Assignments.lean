import Blockwork.Proofs.Source.Headers

/-!
# `Blockwork.Proofs.Source.Assignments`: lines that assign a value

A line that begins with a name and an equals sign is read by the rule for its value: some values have
rules of their own, told apart by their first characters, and the general rule reads any other. A
keyword used as a name is taken for the keyword where what follows allows it.

## Contents
- `exists_keyword`: the rules for keywords, with what may follow the keyword.
- `assigning`, and `Pattern.fits_assigned_iff`: the blanks around the equals sign do not matter.
- `specialRules` and `specialValue`, the rules for special values.
- `not_fits_of_name` and `not_fits_of_dot`: the rules that do not matter.
- `Reading.stable_of_assigned`, and `stable_variable` for the general rule.
-/

namespace Blockwork.Source

open Pattern

variable {k : Nat} {line cs : List Char} {r : Reading} {parts : List (String × List Char)}

/-! ## Lines that begin with a name -/

namespace Pattern

/-- What fits begins with a blank or a colon, or is nothing. -/
def Stops (ps : Pattern) : Prop :=
  ∀ parts cs, Fits ps parts cs → ∀ c ∈ cs.head?, Text.isBlank c = true ∨ c = ':'

variable {ps inner : Pattern}

theorem stops_nil : Stops [] := by
  intro parts cs h
  rw [(fits_nil.mp h).2]
  simp

theorem stops_space (ps : Pattern) : Stops (space ++ ps) := by
  intro parts cs h
  obtain ⟨blanks, rest, hne, hblanks, rfl, -⟩ := fits_space_append.mp h
  obtain ⟨b, blanks, rfl⟩ := List.exists_cons_of_ne_nil hne
  rintro c ⟨⟩
  exact Or.inl (hblanks b List.mem_cons_self)

theorem stops_gap (ps : Pattern) : Stops (gap ++ (text ":" ++ ps)) := by
  intro parts cs h
  obtain ⟨blanks, rest, hblanks, rfl, hrest⟩ := fits_gap_append.mp h
  obtain ⟨rest, rfl, -⟩ := fits_text_append.mp hrest
  cases blanks with
  | nil =>
      rintro c ⟨⟩
      exact Or.inr rfl
  | cons b blanks =>
      rintro c ⟨⟩
      exact Or.inl (hblanks b List.mem_cons_self)

theorem stops_perhaps (ps : Pattern) (hpresent : Stops (inner ++ ps)) (habsent : Stops ps) :
    Stops (perhaps inner ++ ps) := by
  intro parts cs h
  rcases fits_perhaps_append.mp h with h | h
  · exact hpresent parts cs h
  · exact habsent parts cs h

/-- What fits is not an equals sign after a blank, whatever follows. -/
def Refuses (ps : Pattern) : Prop :=
  ∀ parts rest, ¬Fits ps parts (' ' :: '=' :: rest)

theorem refuses_nil : Refuses [] :=
  fun _ _ h => List.cons_ne_nil _ _ (fits_nil.mp h).2

/-- The blanks before an equals sign are all that `space` takes. -/
theorem refuses_space (h : ∀ found cs, ¬Fits ps found ('=' :: cs)) : Refuses (space ++ ps) := by
  intro _ _ hfits
  obtain ⟨blanks, cs, hne, hblanks, hsame, hps⟩ := fits_space_append.mp hfits
  obtain ⟨-, rfl⟩ := Text.eq_singleton_of_blanks_append hne hblanks
    (Text.flush_cons.mpr (by decide)) hsame.symm
  exact h _ _ hps

theorem refuses_name {p : Char → Bool} {name : String} (hp : p '=' = false) :
    Refuses (space ++ (parameter name (run p) ++ ps)) := by
  refine refuses_space fun parts rest hfits => ?_
  obtain ⟨_, value, after, cs, hrun, -, hsame, -⟩ := fits_parameter_append.mp hfits
  obtain ⟨-, hne, hall⟩ := fits_run.mp hrun
  obtain ⟨c, value, rfl⟩ := List.exists_cons_of_ne_nil hne
  obtain ⟨rfl, -⟩ := List.cons.inj hsame
  exact absurd (hall _ List.mem_cons_self) (by simp [hp])

theorem refuses_gap (ps : Pattern) : Refuses (gap ++ (text ":" ++ ps)) := by
  intro parts rest hfits
  obtain ⟨blanks, cs, hblanks, hsame, hps⟩ := fits_gap_append.mp hfits
  obtain ⟨cs, rfl, -⟩ := fits_text_append.mp hps
  cases blanks with
  | nil => cases hsame
  | cons b blanks =>
      obtain ⟨-, hsame⟩ := Text.eq_singleton_of_blanks_append (List.cons_ne_nil _ _) hblanks
        (Text.flush_cons.mpr (by decide)) hsame.symm
      cases hsame

theorem refuses_underscore : Refuses (space ++ (text "_" ++ ps)) := by
  refine refuses_space fun parts rest hfits => ?_
  obtain ⟨cs, hsame, -⟩ := fits_text_append.mp hfits
  cases hsame

/-- A keyword is the name with which a line begins. -/
theorem eq_of_fits_keyword {keyword : String} {name rest : List Char} {c : Char}
    (hkeyword : ∀ c ∈ keyword.toList, Text.isWord c = true) (hstops : Stops ps)
    (hname : ∀ c ∈ name, Text.isWord c = true) (hc : Text.isWord c = false)
    (h : Fits (text keyword ++ ps) parts (name ++ c :: rest)) :
    name = keyword.toList ∧ Fits ps parts (c :: rest) := by
  obtain ⟨cs, hsame, hps⟩ := fits_text_append.mp h
  have hhead : ∀ d ∈ cs.head?, Text.isWord d = false := by
    intro d hd
    rcases hstops _ _ hps d hd with hblank | rfl
    · exact Text.isWord_eq_false_of_isBlank hblank
    · decide
  obtain ⟨hname, rfl⟩ := Text.append_inj_of_class hname hkeyword (by rintro d ⟨⟩; exact hc) hhead hsame
  exact ⟨hname, hps⟩

end Pattern

/-- The first rules are for keywords, each followed by a blank, a colon or nothing. An equals sign
    follows only where any text may follow. -/
theorem exists_keyword : ∀ rule ∈ rules.take 19, ∃ keyword tail,
    rule.pattern = text keyword ++ tail ∧ (∀ c ∈ keyword.toList, Text.isWord c = true) ∧ Stops tail ∧
      (Refuses tail ∨ rule.Keeps keyword) := by
  simp only [rules, List.take, List.forall_mem_cons]
  refine ⟨⟨"import", _, rfl, by decide, stops_space _, Or.inl (refuses_name (by decide))⟩,
    ⟨"from", _, rfl, by decide, stops_space _, Or.inl (refuses_name (by decide))⟩,
    ⟨"class", _, rfl, by decide, stops_space _, Or.inl (refuses_name (by decide))⟩,
    ⟨"def", _, rfl, by decide, stops_space _, Or.inl (refuses_name (by decide))⟩,
    ⟨"if", _, rfl, by decide, stops_space _, Or.inr keeps_if⟩,
    ⟨"elif", _, rfl, by decide, stops_space _, Or.inr keeps_elif⟩,
    ⟨"else", _, rfl, by decide, stops_gap [], Or.inl (refuses_gap [])⟩,
    ⟨"for", _, rfl, by decide, stops_space _, Or.inr keeps_for⟩,
    ⟨"while", _, rfl, by decide, stops_space _, Or.inr keeps_while⟩,
    ⟨"match", _, rfl, by decide, stops_space _, Or.inr keeps_match⟩,
    ⟨"case", _, rfl, by decide, stops_space _, Or.inl refuses_underscore⟩,
    ⟨"case", _, rfl, by decide, stops_space _, Or.inr keeps_case⟩,
    ⟨"try", _, rfl, by decide, stops_gap [], Or.inl (refuses_gap [])⟩,
    ⟨"except", _, rfl, by decide,
      stops_perhaps _ (stops_space _) (stops_perhaps _ (stops_space _) (stops_gap [])),
      Or.inr keeps_except⟩,
    ⟨"finally", _, rfl, by decide, stops_gap [], Or.inl (refuses_gap [])⟩,
    ⟨"raise", _, rfl, by decide, stops_space _, Or.inr keeps_raise⟩,
    ⟨"return", _, rfl, by decide, stops_perhaps [] (stops_space _) stops_nil, Or.inr keeps_return⟩,
    ⟨"break", [], rfl, by decide, stops_nil, Or.inl refuses_nil⟩,
    ⟨"continue", [], rfl, by decide, stops_nil, Or.inl refuses_nil⟩, by simp⟩

/-! ## Assignments -/

/-- A line that assigns a value to a name. -/
def assigning (name value : List Char) : List Char :=
  name ++ (' ' :: '=' :: ' ' :: value)

namespace Pattern

variable {ps : Pattern} {target : String}

theorem fits_assigned : Fits (assigned target ++ ps) parts cs ↔ ∃ name before after found rest,
    name ≠ [] ∧ (∀ c ∈ name, Text.isWord c = true) ∧ (∀ c ∈ before, Text.isBlank c = true) ∧
      (∀ c ∈ after, Text.isBlank c = true) ∧ Fits ps found rest ∧ parts = (target, name) :: found ∧
      cs = name ++ (before ++ '=' :: (after ++ rest)) := by
  simp only [assigned, identifier, List.append_assoc, fits_parameter_append, fits_run, fits_gap_append,
    fits_text_append]
  constructor
  · rintro ⟨_, name, found, _, ⟨rfl, hne, hname⟩, rfl, rfl, before, _, hbefore, rfl, _, rfl, after, rest,
      hafter, rfl, hrest⟩
    exact ⟨name, before, after, found, rest, hne, hname, hbefore, hafter, hrest, rfl, rfl⟩
  · rintro ⟨name, before, after, found, rest, hne, hname, hbefore, hafter, hrest, rfl, rfl⟩
    exact ⟨_, name, found, _, ⟨rfl, hne, hname⟩, rfl, rfl, before, _, hbefore, rfl, _, rfl, after, rest,
      hafter, rfl, hrest⟩

/-- A line is cut at its name and its equals sign in one way. -/
theorem assigned_inj {name name' before before' rest rest' : List Char}
    (hname : ∀ c ∈ name, Text.isWord c = true) (hname' : ∀ c ∈ name', Text.isWord c = true)
    (hbefore : ∀ c ∈ before, Text.isBlank c = true) (hbefore' : ∀ c ∈ before', Text.isBlank c = true)
    (h : name ++ (before ++ '=' :: rest) = name' ++ (before' ++ '=' :: rest')) :
    name = name' ∧ rest = rest' := by
  have hhead : ∀ {blanks rest : List Char}, (∀ c ∈ blanks, Text.isBlank c = true) →
      ∀ c ∈ (blanks ++ '=' :: rest).head?, Text.isWord c = false := by
    intro blanks rest hblanks
    refine Text.head_blanks_append (fun c => Text.isWord_eq_false_of_isBlank) hblanks ?_
    rintro c ⟨⟩
    decide
  obtain ⟨rfl, hrest⟩ := Text.append_inj_of_class hname hname' (hhead hbefore) (hhead hbefore') h
  obtain ⟨-, hrest⟩ := Text.append_inj_of_class hbefore hbefore' (by rintro c ⟨⟩; decide)
    (by rintro c ⟨⟩; decide) hrest
  exact ⟨rfl, (List.cons.inj hrest).2⟩

/-- Where a value does not begin with a blank, the blanks around the equals sign do not matter. -/
theorem fits_assigned_iff (hps : ∀ found rest, Fits ps found rest → Text.Flush rest)
    {name before after value : List Char} (hne : name ≠ []) (hname : ∀ c ∈ name, Text.isWord c = true)
    (hbefore : ∀ c ∈ before, Text.isBlank c = true) (hafter : ∀ c ∈ after, Text.isBlank c = true)
    (hvalue : Text.Flush value) :
    Fits (assigned target ++ ps) parts (name ++ (before ++ '=' :: (after ++ value))) ↔
      ∃ found, Fits ps found value ∧ parts = (target, name) :: found := by
  rw [fits_assigned]
  constructor
  · rintro ⟨name', before', after', found, rest, -, hname', hbefore', hafter', hrest, rfl, hsame⟩
    obtain ⟨rfl, hvalues⟩ := assigned_inj hname hname' hbefore hbefore' hsame
    obtain ⟨-, rfl⟩ := Text.append_inj_of_class hafter hafter' hvalue (hps found rest hrest) hvalues
    exact ⟨found, hrest, rfl⟩
  · rintro ⟨found, hfound, rfl⟩
    exact ⟨name, before, after, found, value, hne, hname, hbefore, hafter, hfound, rfl, rfl⟩

theorem fits_assignedValue {name : String} : Fits (assignedValue name) parts cs ↔
    parts = [(name, cs)] ∧ ∃ c rest, cs = c :: rest ∧ isNone ['='] c = true ∧ ∀ d ∈ rest, isInline d = true := by
  rw [assignedValue, fits_parameter]
  simp only [fits_one_many]
  constructor
  · rintro ⟨_, ⟨rfl, hcs⟩, rfl⟩
    exact ⟨rfl, hcs⟩
  · rintro ⟨rfl, hcs⟩
    exact ⟨[], ⟨rfl, hcs⟩, rfl⟩

end Pattern

/-! ### The rules that may read an assignment -/

/-- The rules for assignments of special values, by the first character of the value. -/
def specialRules (c : Char) : List Nat :=
  if c = 'i' then [21]
  else if c = 'l' then [22]
  else if c = 'r' then [23, 24]
  else if c = '[' then [25]
  else if c = '\x7b' then [26]
  else if c.isUpper then [27]
  else []

theorem isWord_of_isUpper {c : Char} (h : c.isUpper = true) : Text.isWord c = true := by
  have halpha : c.isAlpha = true := Bool.or_eq_true_iff.mpr (Or.inl h)
  exact Text.isWord_of_isAlphanum (Bool.or_eq_true_iff.mpr (Or.inl halpha))

theorem isBlank_eq_false_of_mem_specialRules {j : Nat} {c : Char} (h : j ∈ specialRules c) :
    Text.isBlank c = false := by
  simp only [specialRules] at h
  split_ifs at h with h₁ h₂ h₃ h₄ h₅ h₆ <;> subst_vars
  case pos => decide
  case pos => decide
  case pos => decide
  case pos => decide
  case pos => decide
  case pos => exact Text.isBlank_eq_false_of_isWord (isWord_of_isUpper h₆)
  case neg => cases h

theorem specialRules_of_isUpper {c : Char} (h : c.isUpper = true) : specialRules c = [27] := by
  simp only [specialRules]
  split_ifs <;> subst_vars
  all_goals first | rfl | exact absurd h (by decide)

/-- A text, a value and another text. -/
def enclosed (before name : String) (inner : Pattern) (after : String) : Pattern :=
  text before ++ (parameter name inner ++ text after)

theorem Pattern.fits_enclosed {before name after : String} {inner : Pattern} :
    Fits (enclosed before name inner after) parts cs ↔ ∃ inside value, Fits inner inside value ∧
      parts = inside ++ [(name, value)] ∧ cs = before.toList ++ (value ++ after.toList) := by
  simp only [enclosed, fits_text_append, fits_parameter_append, fits_text]
  constructor
  · rintro ⟨_, rfl, inside, value, _, _, hinner, rfl, rfl, rfl, rfl⟩
    exact ⟨inside, value, hinner, rfl, rfl⟩
  · rintro ⟨inside, value, hinner, rfl, rfl⟩
    exact ⟨_, rfl, inside, value, _, _, hinner, rfl, rfl, rfl, rfl⟩

/-- What may follow the equals sign in the special assignments. -/
def specialValue : Nat → Pattern
  | 21 => enclosed "input(\"" "prompt" [.many isInline] "\")"
  | 22 => enclosed "len(" "object" (run isInline) ")"
  | 23 => text "range(" ++ (argument "start" ++ (comma ++ (argument "stop" ++ (comma ++
      (argument "step" ++ text ")")))))
  | 24 => text "range(" ++ (argument "start" ++ (comma ++ (argument "stop" ++ text ")")))
  | 25 => enclosed "[" "items" [.many isInline] "]"
  | 26 => enclosed "\x7b" "items" [.many isInline] "\x7d"
  | _ => parameter "class_name" [.one Char.isUpper, .many Text.isWord] ++
      enclosed "(" "args" [.many isInline] ")"

/-- The name of the parameter that is assigned to. -/
def specialTarget (j : Nat) : String :=
  if j = 25 ∨ j = 26 then "name" else "variable"

theorem special_cases {j : Nat} (hj : 21 ≤ j) (hj' : j < 28) :
    j = 21 ∨ j = 22 ∨ j = 23 ∨ j = 24 ∨ j = 25 ∨ j = 26 ∨ j = 27 := by
  omega

theorem pattern_special {j : Nat} (hj : 21 ≤ j) (hj' : j < 28) (hlength : j < rules.length) :
    rules[j].pattern = assigned (specialTarget j) ++ specialValue j := by
  rcases special_cases hj hj' with rfl | rfl | rfl | rfl | rfl | rfl | rfl <;> rfl

theorem mem_specialRules {j : Nat} (hj : 21 ≤ j) (hj' : j < 28) (h : Fits (specialValue j) parts cs) :
    ∃ c rest, cs = c :: rest ∧ j ∈ specialRules c := by
  have htext : ∀ {s : String} {ps : Pattern} {found : List (String × List Char)},
      Fits (text s ++ ps) found cs → ∀ c ∈ s.toList.head?, ∃ rest, cs = c :: rest := by
    intro s ps found hfits c hc
    obtain ⟨rest, rfl, -⟩ := fits_text_append.mp hfits
    obtain ⟨tail, htail⟩ := List.head?_eq_some_iff.mp hc
    exact ⟨tail ++ rest, by rw [htail, List.cons_append]⟩
  rcases special_cases hj hj' with rfl | rfl | rfl | rfl | rfl | rfl | rfl
  case inr.inr.inr.inr.inr.inr =>
    obtain ⟨_, value, _, rest, hclass, -, rfl, -⟩ := fits_parameter_append.mp h
    obtain ⟨-, c, run, rfl, hupper, -⟩ := fits_one_many.mp hclass
    exact ⟨c, run ++ rest, rfl, by rw [specialRules_of_isUpper hupper]; exact List.mem_singleton_self _⟩
  all_goals
    obtain ⟨rest, rfl⟩ := htext h _ rfl
    exact ⟨_, rest, rfl, by decide⟩

theorem flush_specialValue {j : Nat} (hj : 21 ≤ j) (hj' : j < 28) (found : List (String × List Char))
    (rest : List Char) (h : Fits (specialValue j) found rest) : Text.Flush rest := by
  obtain ⟨c, rest, rfl, hc⟩ := mem_specialRules hj hj' h
  exact Text.flush_cons.mpr (isBlank_eq_false_of_mem_specialRules hc)

/-! ### The rules that do not -/

section Refused

variable {name rest : List Char} {c : Char}

/-- A line that begins with a name and something else is neither printed nor a comment. -/
theorem not_fits_of_name (hne : name ≠ []) (hname : ∀ c ∈ name, Text.isWord c = true)
    (hc : Text.isWord c = false) (hparen : c ≠ '(') (parts : List (String × List Char)) (rest : List Char) :
    ¬Fits rules[19].pattern parts (name ++ c :: rest) ∧ ¬Fits rules[20].pattern parts (name ++ c :: rest) := by
  constructor
  · intro h
    have hrule : rules[19].pattern = text "print(" ++ (anything "message" ++ text ")") := rfl
    rw [hrule] at h
    obtain ⟨cs, hsame, -⟩ := fits_text_append.mp h
    have hprint : name ++ c :: rest = "print".toList ++ '(' :: cs := by simp [hsame]
    obtain ⟨-, hsame⟩ := Text.append_inj_of_class hname (by decide) (by rintro d ⟨⟩; exact hc)
      (by rintro d ⟨⟩; decide) hprint
    exact hparen (List.cons.inj hsame).1
  · intro h
    obtain ⟨d, name, rfl⟩ := List.exists_cons_of_ne_nil hne
    obtain ⟨hd, -⟩ := List.forall_mem_cons.mp hname
    have hrule : rules[20].pattern = text "#" ++ (perhaps [.one Text.isBlank] ++ anything "text") := rfl
    rw [hrule] at h
    obtain ⟨cs, hsame, -⟩ := fits_text_append.mp h
    obtain ⟨rfl, -⟩ := List.cons.inj hsame
    exact absurd hd (by decide)

/-- A name and a dot are found where a name ends. -/
theorem Pattern.fits_dotted {target : String} {ps : Pattern} (hne : name ≠ [])
    (hname : ∀ c ∈ name, Text.isWord c = true) (hc : Text.isWord c = false) :
    Fits (identifier target ++ (text "." ++ ps)) parts (name ++ c :: rest) ↔
      c = '.' ∧ ∃ found, Fits ps found rest ∧ parts = (target, name) :: found := by
  simp only [identifier, fits_parameter_append, fits_run, fits_text_append]
  constructor
  · rintro ⟨_, name', found, _, ⟨rfl, -, hname'⟩, rfl, hsame, rest', rfl, hrest⟩
    obtain ⟨rfl, htail⟩ := Text.append_inj_of_class hname hname' (by rintro d ⟨⟩; exact hc)
      (by rintro d ⟨⟩; decide) hsame
    obtain ⟨rfl, rfl⟩ := List.cons.inj htail
    exact ⟨rfl, found, hrest, rfl⟩
  · rintro ⟨rfl, found, hfound, rfl⟩
    exact ⟨[], name, found, _, ⟨rfl, hne, hname⟩, rfl, rfl, rest, rfl, hfound⟩

/-- After the name that is assigned to comes the equals sign. -/
theorem Pattern.not_fits_assigned {target : String} {ps : Pattern} (hname : ∀ c ∈ name, Text.isWord c = true)
    (hc : Text.isWord c = false) (hblank : Text.isBlank c = false) (hequals : c ≠ '=') :
    ¬Fits (assigned target ++ ps) parts (name ++ c :: rest) := by
  intro h
  obtain ⟨name', before, after, _, value, -, hname', hbefore, -, -, -, hsame⟩ := fits_assigned.mp h
  have hhead : ∀ d ∈ (before ++ '=' :: (after ++ value)).head?, Text.isWord d = false :=
    Text.head_blanks_append (fun _ => Text.isWord_eq_false_of_isBlank) hbefore (by rintro d ⟨⟩; decide)
  obtain ⟨-, hrest⟩ := Text.append_inj_of_class hname hname' (by rintro d ⟨⟩; exact hc) hhead hsame
  cases before with
  | nil => exact hequals (List.cons.inj hrest).1
  | cons b before =>
      obtain ⟨rfl, -⟩ := List.cons.inj hrest
      exact absurd (hbefore _ List.mem_cons_self) (by simp [hblank])

/-- A line that begins with a name and a dot fits none of the rules for keywords and assignments. -/
theorem not_fits_of_dot (hne : name ≠ []) (hname : ∀ c ∈ name, Text.isWord c = true) {j : Nat}
    (hj : j < rules.length) (hattribute : j ≠ 28) (hcall : j ≠ 30) :
    ¬Fits rules[j].pattern parts (name ++ '.' :: rest) := by
  intro h
  have hassigned : ∀ {target : String} {ps : Pattern},
      ¬Fits (assigned target ++ ps) parts (name ++ '.' :: rest) :=
    not_fits_assigned hname (by decide) (by decide) (by decide)
  by_cases hkeyword : j < 19
  · obtain ⟨keyword, tail, hpattern, hword, hstops, -⟩ :=
      exists_keyword rules[j] (List.mem_take_iff_getElem.mpr ⟨j, by omega, rfl⟩)
    rw [hpattern] at h
    obtain ⟨-, htail⟩ := eq_of_fits_keyword hword hstops hname (by decide) h
    exact absurd (hstops _ _ htail '.' rfl) (by decide)
  by_cases hspecial : 21 ≤ j ∧ j < 28
  · rw [pattern_special hspecial.1 hspecial.2 hj] at h
    exact hassigned h
  have hlength : rules.length = 31 := rfl
  obtain ⟨hprint, hcomment⟩ := not_fits_of_name hne hname (by decide : Text.isWord '.' = false)
    (by decide) parts rest
  -- What is left are the rules for output, for comments and for general assignments.
  have hcases : j = 19 ∨ j = 20 ∨ j = 29 := by omega
  rcases hcases with rfl | rfl | rfl
  · exact hprint h
  · exact hcomment h
  · have hrule : rules[29].pattern = assigned "name" ++ assignedValue "value" := rfl
    rw [hrule] at h
    exact hassigned h

end Refused

/-! ### An assignment as it is written -/

/-- The rules from the fifth on are for no import, class or function. -/
theorem bucket_of_later : ∀ rule ∈ rules.drop 4, rule.block.val.kind.bucket = .other := by
  decide +kernel

theorem written_variable (name value : List Char) :
    Reading.written ⟨Catalog.entry "variable", [("name", name), ("value", value)]⟩
      = assigning name value := by
  have hlays : Slot.Lays [⟨"", "name", "my_var", none⟩, ⟨" = ", "value", "0", none⟩] ""
      (Catalog.entry "variable").val := by decide +kernel
  rw [written_eq hlays]
  simp [Slot.text, List.lookup_cons, assigning]

section Assigned

variable {name value : List Char} {again : Reading}

/-- What the general rule reads: the blanks after the equals sign may belong to the value, but they are
    trimmed. -/
theorem trimmed_of_fits_variable {before rest : List Char} (hname : ∀ c ∈ name, Text.isWord c = true)
    (hbefore : ∀ c ∈ before, Text.isBlank c = true)
    (h : (assigned "name" ++ assignedValue "value").Fits parts (name ++ (before ++ '=' :: rest))) :
    trimmed parts = [("name", name), ("value", Text.trimChars rest)] := by
  obtain ⟨name', before', after, found, value, -, hname', hbefore', hafter, hfound, rfl, hsame⟩ :=
    fits_assigned.mp h
  obtain ⟨rfl, -⟩ := fits_assignedValue.mp hfound
  obtain ⟨rfl, rfl⟩ := assigned_inj hname hname' hbefore hbefore' hsame
  have hnameTrim : Text.trimChars name = name := Text.trimChars_of_isWord hname
  rw [trimmed_cons, trimmed_cons, trimmed_nil, hnameTrim, Text.trimChars_blanks_append hafter]

/-! ### The general rule -/

theorem flush_assigning (hne : name ≠ []) (hname : ∀ c ∈ name, Text.isWord c = true)
    (value : List Char) : Text.Flush (assigning name value) :=
  (Text.flush_of_forall fun c hc => Text.isBlank_eq_false_of_isWord (hname c hc)).append hne _

theorem flush_reverse_assigning (hne : value ≠ []) (name : List Char) :
    Text.Flush (assigning name value).reverse ↔ Text.Flush value.reverse := by
  rw [assigning, Text.flush_reverse_append (by simp), Text.flush_reverse_cons (by simp),
    Text.flush_reverse_cons (by simp), Text.flush_reverse_cons hne]

theorem fits_assigning (hne : name ≠ []) (hname : ∀ c ∈ name, Text.isWord c = true)
    (hvalue : ∀ c ∈ value, isInline c = true) :
    (assigned "name" ++ assignedValue "value").Fits [("name", name), ("value", ' ' :: value)]
      (assigning name value) := by
  have hfound : (assignedValue "value").Fits [("value", ' ' :: value)] (' ' :: value) :=
    fits_assignedValue.mpr ⟨rfl, ' ', value, rfl, by decide, hvalue⟩
  exact fits_assigned.mpr
    ⟨name, [' '], [], _, ' ' :: value, hne, hname, by decide, by simp, hfound, rfl, rfl⟩

theorem trimmed_of_fits_assigning (hname : ∀ c ∈ name, Text.isWord c = true)
    (htrim : Text.trimChars value = value)
    (h : (assigned "name" ++ assignedValue "value").Fits parts (assigning name value)) :
    trimmed parts = [("name", name), ("value", value)] := by
  have hblank : ∀ c ∈ [' '], Text.isBlank c = true := by decide
  rw [trimmed_of_fits_variable hname hblank h, Text.trimChars_space_cons, htrim]

/-! ### Assignments that come back -/

/-- A rule for a keyword that reads an assignment keeps it as it stands. -/
theorem written_of_keyword (hname : ∀ c ∈ name, Text.isWord c = true) (hne : value ≠ [])
    (hend : Text.Flush value.reverse)
    (htidy : String.ofList name ∈ headers → Tidy (String.ofList name) ('=' :: ' ' :: value)) {j : Nat}
    (hj : j < 19) (hlength : j < rules.length) (h : rules[j].reading? (assigning name value) = some again) :
    again.written = assigning name value ∧ again.block.val.kind.bucket = .other := by
  obtain ⟨keyword, tail, hpattern, hword, hstops, hcases⟩ :=
    exists_keyword rules[j] (List.mem_take_iff_getElem.mpr ⟨j, by omega, rfl⟩)
  obtain ⟨parts, hfits, rfl⟩ := Rule.exists_fits h
  rw [hpattern] at hfits
  obtain ⟨rfl, htail⟩ := eq_of_fits_keyword hword hstops hname (by decide) hfits
  rw [String.ofList_toList] at htidy
  rcases hcases with hrefuses | hkeeps
  · exact absurd htail (hrefuses _ _)
  · refine ⟨hkeeps.written _ ?_ htidy _ h, hkeeps.group⟩
    rwa [Text.flush_reverse_cons (by simp), Text.flush_reverse_cons hne]

/-- Of the rules that are neither for a keyword nor for a special value, only the general one reads an
    assignment. -/
theorem written_of_general (hne : name ≠ []) (hname : ∀ c ∈ name, Text.isWord c = true)
    (htrim : Text.trimChars value = value) {j : Nat} (hcases : j = 19 ∨ j = 20 ∨ j = 28 ∨ j = 29)
    (hlength : j < rules.length) (h : rules[j].reading? (assigning name value) = some again) :
    again.written = assigning name value := by
  obtain ⟨parts, hfits, rfl⟩ := Rule.exists_fits h
  obtain ⟨hprint, hcomment⟩ := not_fits_of_name hne hname (by decide : Text.isWord ' ' = false)
    (by decide) parts ('=' :: ' ' :: value)
  rcases hcases with rfl | rfl | rfl | rfl
  · exact absurd hfits hprint
  · exact absurd hfits hcomment
  · have hrule : rules[28].pattern
        = identifier "object" ++ (text "." ++ (assigned "name" ++ assignedValue "value")) := rfl
    rw [hrule, assigning, fits_dotted hne hname (by decide)] at hfits
    exact absurd hfits.1 (by decide)
  · rw [trimmed_of_fits_assigning hname htrim hfits]
    exact written_variable name value

/-- **An assignment of a trimmed value comes back**, if it is tidy where its name is the keyword of a
    header, and the special rules that read it write it in the same way. -/
theorem Reading.stable_of_assigned (hne : name ≠ []) (hname : ∀ c ∈ name, Text.isWord c = true)
    (hvalue : value ≠ []) (htrim : Text.trimChars value = value)
    (hinline : ∀ c ∈ value, isInline c = true)
    (htidy : String.ofList name ∈ headers → Tidy (String.ofList name) ('=' :: ' ' :: value))
    (hown : r.block.val.canOwnChildren = false) (hgroup : r.block.val.kind.bucket = .other)
    (hwritten : r.written = assigning name value)
    (hspecial : ∀ j again, 21 ≤ j → j < 28 → ∀ hj : j < rules.length,
      rules[j].reading? (assigning name value) = some again → again.written = assigning name value) :
    r.Stable := by
  have hend : Text.Flush value.reverse := htrim ▸ Text.flush_reverse_trimChars value
  have hkept : ∀ again : Reading, again.written = assigning name value →
      again.block.val.kind.bucket = .other → r.Kept again :=
    fun again hsame hbucket => ⟨hsame.trans hwritten.symm, fun h => absurd h (by simp [hown]),
      hbucket.trans hgroup.symm⟩
  have hfits : rules[29].pattern.Fits [("name", name), ("value", ' ' :: value)] r.written :=
    hwritten ▸ fits_assigning hne hname hinline
  refine stable_of_fits (by decide) ?_ ?_ hfits fun j hlength again hj hagain => ?_
  · exact hwritten ▸ flush_assigning hne hname value
  · exact hwritten ▸ (flush_reverse_assigning hvalue name).mpr hend
  rw [hwritten] at hagain
  -- The rules for keywords come first; the others are for blocks without a group of their own.
  by_cases hkeyword : j < 19
  · obtain ⟨hsame, hbucket⟩ := written_of_keyword hname hvalue hend htidy hkeyword hlength hagain
    exact hkept again hsame hbucket
  · have hbucket : again.block.val.kind.bucket = .other := by
      obtain ⟨parts, -, rfl⟩ := Rule.exists_fits hagain
      exact bucket_of_later rules[j] (List.mem_drop_iff_getElem.mpr ⟨j - 4, by omega, by congr 1; omega⟩)
    refine hkept again ?_ hbucket
    by_cases hrange : 21 ≤ j ∧ j < 28
    · exact hspecial j again hrange.1 hrange.2 hlength hagain
    · exact written_of_general hne hname htrim (by omega) hlength hagain

/-- The value of a general assignment, as it stands in a line that is trimmed. -/
theorem exists_of_fits_variable (hline : Text.Flush line.reverse)
    (h : (assigned "name" ++ assignedValue "value").Fits parts line) : ∃ name before after value,
      name ≠ [] ∧ (∀ c ∈ name, Text.isWord c = true) ∧ (∀ c ∈ before, Text.isBlank c = true) ∧
      (∀ c ∈ after, Text.isBlank c = true) ∧ value ≠ [] ∧ Text.trimChars value = value ∧
      trimmed parts = [("name", name), ("value", value)] ∧
      line = name ++ (before ++ '=' :: (after ++ value)) := by
  obtain ⟨name, before, after, found, value, hne, hname, hbefore, hafter, hfound, -, rfl⟩ :=
    fits_assigned.mp h
  obtain ⟨-, c, cs, hvalue, -⟩ := fits_assignedValue.mp hfound
  have hvalueNe : value ≠ [] := hvalue ▸ List.cons_ne_nil c cs
  have hvalues := trimmed_of_fits_variable hname hbefore h
  have hend : Text.Flush value.reverse := by
    rwa [Text.flush_reverse_append (by simp), Text.flush_reverse_append (by simp),
      Text.flush_reverse_cons (by simp [hvalueNe]), Text.flush_reverse_append hvalueNe] at hline
  obtain ⟨blanks, hblanks, hcut⟩ := Text.exists_blanks_trimChars_of_end hend
  rw [Text.trimChars_blanks_append hafter] at hvalues
  refine ⟨name, before, after ++ blanks, Text.trimChars value, hne, hname, hbefore, ?_,
    Text.trimChars_ne_nil hvalueNe hend, Text.trimChars_trimChars value, hvalues, ?_⟩
  · exact fun c hc => (List.mem_append.mp hc).elim (hafter c) (hblanks c)
  · rw [List.append_assoc, ← hcut]

theorem stable_variable (hline : Text.Flush line.reverse) (hinline : ∀ c ∈ line, isInline c = true)
    (h : rules[29].reading? line = some r)
    (hearlier : ∀ j (hj : j < rules.length), j < 29 → rules[j].reading? line = none)
    (htidy : ∀ name value, r.values = [("name", name), ("value", value)] →
      String.ofList name ∈ headers → Tidy (String.ofList name) ('=' :: ' ' :: value)) : r.Stable := by
  obtain ⟨parts, hfits, rfl⟩ := Rule.exists_fits h
  have hrule : rules[29].pattern = assigned "name" ++ assignedValue "value" := rfl
  rw [hrule] at hfits
  obtain ⟨name, before, after, value, hne, hname, hbefore, hafter, hvalue, htrim, hvalues, rfl⟩ :=
    exists_of_fits_variable hline hfits
  rw [hvalues] at htidy ⊢
  refine Reading.stable_of_assigned hne hname hvalue htrim (fun c hc => hinline c (by simp [hc]))
    (htidy name value rfl) rfl rfl (written_variable name value) ?_
  -- A special rule that reads what is written would have read the line.
  intro j again hj hj' hlength hagain
  obtain ⟨parts, hspecial, -⟩ := Rule.exists_fits hagain
  have hflush : Text.Flush value := htrim ▸ Text.flush_trimChars value
  have hpattern := pattern_special hj hj' hlength
  rw [hpattern, assigning] at hspecial
  obtain ⟨found, hfound, -⟩ := (fits_assigned_iff (flush_specialValue hj hj') hne hname
    (by decide : ∀ c ∈ [' '], Text.isBlank c = true) (by decide : ∀ c ∈ [' '], Text.isBlank c = true)
    hflush).mp hspecial
  refine absurd ?_ (Rule.not_fits (hearlier j hlength (by omega)) ((specialTarget j, name) :: found))
  rw [hpattern]
  exact (fits_assigned_iff (flush_specialValue hj hj') hne hname hbefore hafter hflush).mpr
    ⟨found, hfound, rfl⟩

end Assigned

end Blockwork.Source
