import Mathlib.Data.List.TakeWhile
import Blockwork.Proofs.Forest.Filled
import Blockwork.Proofs.Text.Trim
import Blockwork.Source.BlockLine

/-!
# `Blockwork.Proofs.Source.Tokens`: all placeholders of a template are replaced at once

Read from the left, a template falls into tokens: the placeholders whose names are known, and single
characters. Which tokens these are depends on the template and on the known names alone, and not on any
value. Filling in a template makes each token into its text and puts the texts one after another, so no
text is looked at again, whatever braces it holds.

## Contents
- `Opens`, a placeholder at the beginning of a text, and `placeholder?_eq_some_iff`.
- `Token`, and `Scans`: the tokens of a text; `Scans.unique`, `Scans.flatMap_source`, `Scans.append_brace`
  and `Scans.doubled`.
- `tokens`, the computed tokens, with `scans_tokens`.
- `substituteChars_of_scans`: a template filled in, token by token; with `substituteChars_text`,
  `substituteChars_append_brace`, `substituteChars_doubled`, `substituteChars_eq_self` and
  `forall_substituteChars`.
- `tokens_builtin`: the placeholders in the library are the declared parameters.
- `Block.shapedText`, and `Block.line_of_scans`: the line of a block, token by token; with
  `Block.trimChars_line_ne_nil`: it is not blank.
- `substitute_replaces`.
-/

namespace Blockwork

namespace Source

/-! ## Placeholders -/

/-- `cs` begins with a placeholder for `name`, and `rest` comes after it. The name cannot go on, since
    the brace that closes it is not part of names. -/
structure Opens (name rest cs : List Char) : Prop where
  named : name ≠ []
  chars : ∀ c ∈ name, isNameChar c = true
  text : cs = openBrace :: (name ++ closeBrace :: rest)

theorem placeholder?_eq_some_iff {name rest cs : List Char} :
    placeholder? cs = some (name, rest) ↔ Opens name rest (openBrace :: cs) := by
  constructor
  · intro h
    have hcs := List.takeWhile_append_dropWhile (p := isNameChar) (l := cs)
    simp only [placeholder?] at h
    split at h
    · cases h
    · rename_i c after hdrop
      split at h
      · rename_i hclose
        cases h
        rw [hdrop, hclose.1] at hcs
        exact ⟨hclose.2, fun d hd => List.mem_takeWhile_imp hd, by rw [hcs]⟩
      · cases h
  · rintro ⟨hne, hchars, htext⟩
    rw [(List.cons.inj htext).2, placeholder?, List.dropWhile_append_of_pos hchars,
      List.takeWhile_append_of_pos hchars, List.dropWhile_cons_of_neg (by decide),
      List.takeWhile_cons_of_neg (by decide), List.append_nil]
    exact if_pos ⟨rfl, hne⟩

theorem Opens.eq_openBrace {name rest cs : List Char} {c : Char} (h : Opens name rest (c :: cs)) :
    c = openBrace :=
  (List.cons.inj h.text).1

theorem Opens.length_lt {name rest cs : List Char} (h : Opens name rest cs) : rest.length < cs.length := by
  rw [h.text, List.length_cons, List.length_append, List.length_cons]
  omega

/-- A text begins with one placeholder at most. -/
theorem Opens.unique {name name' rest rest' cs : List Char} (h : Opens name rest cs)
    (h' : Opens name' rest' cs) : name = name' ∧ rest = rest' := by
  have hcs := h.text
  subst hcs
  have hfound := (placeholder?_eq_some_iff.mpr h).symm.trans (placeholder?_eq_some_iff.mpr h')
  exact Prod.mk.inj (Option.some.inj hfound)

/-- A placeholder holds no second opening brace, so where one follows, it follows the placeholder. -/
theorem Opens.of_append_brace {name rest after cs : List Char} {c : Char}
    (h : Opens name rest (c :: cs ++ openBrace :: after)) : ∃ before, Opens name before (c :: cs) := by
  obtain ⟨hne, hchars, htext⟩ := h
  rw [List.cons_append, List.cons.injEq] at htext
  obtain ⟨rfl, htext⟩ := htext
  rcases List.append_eq_append_iff.mp htext with ⟨more, hname, hmore⟩ | ⟨more, rfl, hmore⟩
  · cases more with
    | nil => exact absurd (List.cons.inj hmore).1 (by decide)
    | cons d more =>
        obtain rfl := (List.cons.inj hmore).1
        exact absurd (hchars openBrace (hname ▸ by simp)) (by decide)
  · cases more with
    | nil => exact absurd (List.cons.inj hmore).1 (by decide)
    | cons d more =>
        obtain rfl := (List.cons.inj hmore).1
        exact ⟨more, hne, hchars, rfl⟩

/-! ## Tokens -/

/-- A token of a template. -/
inductive Token where
  | literal (c : Char)
  | placeholder (name : List Char)
  deriving DecidableEq

namespace Token

/-- The token as it stands in a template. -/
def source : Token → List Char
  | literal c => [c]
  | placeholder name => openBrace :: (name ++ [closeBrace])

/-- What the token becomes. -/
def text (value : String → String) : Token → List Char
  | literal c => [c]
  | placeholder name => (value (String.ofList name)).toList

/-- The name of a placeholder. -/
def name? : Token → Option String
  | literal _ => none
  | placeholder name => some (String.ofList name)

/-- Whether the token is a character that is not blank. -/
def isSolid : Token → Bool
  | literal c => !Text.isBlank c
  | placeholder _ => false

end Token

/-- The tokens of a text, from the left: a placeholder where one with a known name begins, and a single
    character everywhere else. -/
inductive Scans (known : String → Bool) : List Char → List Token → Prop where
  | nil : Scans known [] []
  | placeholder {name rest cs : List Char} {ts : List Token} (opens : Opens name rest cs)
      (hknown : known (String.ofList name) = true) (after : Scans known rest ts) :
      Scans known cs (.placeholder name :: ts)
  | literal {c : Char} {cs : List Char} {ts : List Token}
      (hunknown : ∀ name rest, Opens name rest (c :: cs) → known (String.ofList name) = false)
      (after : Scans known cs ts) : Scans known (c :: cs) (.literal c :: ts)

section Scans

variable {known : String → Bool} {cs : List Char} {ts : List Token}

/-- A text has one sequence of tokens. -/
theorem Scans.unique {us : List Token} (h : Scans known cs ts) (h' : Scans known cs us) : ts = us := by
  induction h generalizing us with
  | nil =>
      cases h' with
      | nil => rfl
      | placeholder opens _ _ => cases opens.text
  | placeholder opens hknown _ ih =>
      cases h' with
      | nil => cases opens.text
      | placeholder opens' _ after' =>
          obtain ⟨rfl, rfl⟩ := opens.unique opens'
          rw [ih after']
      | literal hunknown _ =>
          rw [hunknown _ _ opens] at hknown
          cases hknown
  | literal hunknown _ ih =>
      cases h' with
      | placeholder opens hknown _ =>
          rw [hunknown _ _ opens] at hknown
          cases hknown
      | literal _ after' => rw [ih after']

/-- **The tokens are the text**, in order and without a gap. -/
theorem Scans.flatMap_source (h : Scans known cs ts) : ts.flatMap Token.source = cs := by
  induction h with
  | nil => rfl
  | placeholder opens _ _ ih =>
      rw [List.flatMap_cons, ih, Token.source, opens.text]
      simp
  | literal _ _ ih => rw [List.flatMap_cons, ih, Token.source, List.singleton_append]

/-- The tokens stay if fewer names are known, but still those that are met. -/
theorem Scans.restrict {known' : String → Bool} (h : Scans known cs ts)
    (hfewer : ∀ name, known name = false → known' name = false)
    (hmet : ∀ name ∈ ts.filterMap Token.name?, known' name = true) : Scans known' cs ts := by
  induction h with
  | nil => exact .nil
  | @placeholder name _ _ _ opens _ _ ih =>
      obtain ⟨hname, hrest⟩ := List.forall_mem_cons.mp hmet
      exact .placeholder opens hname (ih hrest)
  | literal hunknown _ ih =>
      exact .literal (fun name rest opens => hfewer _ (hunknown name rest opens)) (ih hmet)

/-- Where an opening brace follows, the tokens of what comes before it are those of a text of its
    own. -/
theorem Scans.append_brace {after : List Char} {us : List Token} (h : Scans known cs ts)
    (hafter : Scans known (openBrace :: after) us) :
    Scans known (cs ++ openBrace :: after) (ts ++ us) := by
  induction h with
  | nil => exact hafter
  | @placeholder name rest cs _ opens hknown _ ih =>
      have hopens : Opens name (rest ++ openBrace :: after) (cs ++ openBrace :: after) :=
        ⟨opens.named, opens.chars, by rw [opens.text]; simp⟩
      exact .placeholder hopens hknown ih
  | literal hunknown _ ih =>
      refine .literal (fun name rest opens => ?_) ih
      obtain ⟨before, hopens⟩ := opens.of_append_brace
      exact hunknown name before hopens

/-- A text in which no character follows an opening brace has no placeholders. -/
theorem scans_literals (known : String → Bool) (h : openBrace ∉ cs.dropLast) :
    Scans known cs (cs.map Token.literal) := by
  induction cs with
  | nil => exact .nil
  | cons c cs ih =>
      refine .literal (fun name rest opens => ?_) (ih fun hmem => h ?_)
      · -- A placeholder goes on after its brace, so the brace is not the last character.
        have hne : cs ≠ [] := by
          rw [(List.cons.inj opens.text).2]
          simp
        rw [opens.eq_openBrace, List.dropLast_cons_of_ne_nil hne] at h
        exact absurd List.mem_cons_self h
      · rw [List.dropLast_cons_of_ne_nil (by rintro rfl; exact absurd hmem List.not_mem_nil)]
        exact List.mem_cons_of_mem c hmem

/-- A placeholder in doubled braces is a token, and so is the second brace on either side. -/
theorem Scans.doubled {name after : List Char} {us : List Token} (h : Scans known cs ts)
    (hafter : Scans known after us) (hnamed : name ≠ []) (hchars : ∀ c ∈ name, isNameChar c = true)
    (hknown : known (String.ofList name) = true) :
    Scans known (cs ++ openBrace :: openBrace :: (name ++ closeBrace :: closeBrace :: after))
      (ts ++ .literal openBrace :: .placeholder name :: .literal closeBrace :: us) := by
  have hclose : Scans known (closeBrace :: after) (.literal closeBrace :: us) :=
    .literal (fun _ _ opens => absurd opens.eq_openBrace (by decide)) hafter
  have hinner := Scans.placeholder ⟨hnamed, hchars, rfl⟩ hknown hclose
  -- No name comes between the opening braces, so the first of them begins no placeholder.
  have houter : Scans known [openBrace] [.literal openBrace] := scans_literals known List.not_mem_nil
  exact h.append_brace (houter.append_brace hinner)

/-- The tokens of a text, computed. -/
def tokens (known : String → Bool) : List Char → List Token
  | [] => []
  | c :: rest =>
    if c = openBrace then
      match _h : placeholder? rest with
      | some (name, after) =>
        if known (String.ofList name) then .placeholder name :: tokens known after
        else .literal c :: tokens known rest
      | none => .literal c :: tokens known rest
    else .literal c :: tokens known rest
termination_by cs => cs.length
decreasing_by
  · have := length_of_placeholder? _h
    simp only [List.length_cons]
    omega
  all_goals simp

theorem tokens_placeholder {name rest : List Char} (h : Opens name rest cs)
    (hknown : known (String.ofList name) = true) :
    tokens known cs = .placeholder name :: tokens known rest := by
  have hcs := h.text
  subst hcs
  have hplaceholder := placeholder?_eq_some_iff.mpr h
  rw [tokens, if_pos rfl]
  split
  · rename_i heq
    rw [hplaceholder] at heq
    obtain ⟨rfl, rfl⟩ := Prod.mk.inj (Option.some.inj heq)
    rw [if_pos hknown]
  · rename_i heq
    rw [hplaceholder] at heq
    cases heq

theorem tokens_literal {c : Char}
    (h : ∀ name rest, Opens name rest (c :: cs) → known (String.ofList name) = false) :
    tokens known (c :: cs) = .literal c :: tokens known cs := by
  rw [tokens]
  split
  · rename_i hc
    subst hc
    split
    · rename_i heq
      rw [if_neg (by simp [h _ _ (placeholder?_eq_some_iff.mp heq)])]
    · rfl
  · rfl

/-- **Every text has tokens.** -/
theorem scans_tokens (known : String → Bool) (cs : List Char) : Scans known cs (tokens known cs) := by
  -- What comes after a placeholder is shorter, but not by one character.
  induction hlength : cs.length using Nat.strongRecOn generalizing cs with
  | _ length ih =>
      cases cs with
      | nil =>
          rw [tokens]
          exact .nil
      | cons c cs =>
          by_cases hopens : ∃ name rest, Opens name rest (c :: cs) ∧ known (String.ofList name) = true
          · obtain ⟨name, rest, hopens, hknown⟩ := hopens
            rw [tokens_placeholder hopens hknown]
            exact .placeholder hopens hknown (ih _ (hlength ▸ hopens.length_lt) rest rfl)
          · have hunknown : ∀ name rest, Opens name rest (c :: cs) → known (String.ofList name) = false :=
              fun name rest hat => Bool.eq_false_iff.mpr fun hknown => hopens ⟨name, rest, hat, hknown⟩
            rw [tokens_literal hunknown]
            exact .literal hunknown (ih _ (hlength ▸ Nat.lt_succ_self _) cs rfl)

end Scans

/-! ## Filling in -/

section Fill

variable {value : String → Option String} {cs : List Char}

theorem substituteChars_placeholder {name rest : List Char} (h : Opens name rest cs) {text : String}
    (hvalue : value (String.ofList name) = some text) :
    substituteChars value cs = text.toList ++ substituteChars value rest := by
  have hcs := h.text
  subst hcs
  have hplaceholder := placeholder?_eq_some_iff.mpr h
  rw [substituteChars, if_pos rfl]
  split
  · rename_i heq
    rw [hplaceholder] at heq
    obtain ⟨rfl, rfl⟩ := Prod.mk.inj (Option.some.inj heq)
    rw [hvalue]
  · rename_i heq
    rw [hplaceholder] at heq
    cases heq

theorem substituteChars_literal {c : Char}
    (h : ∀ name rest, Opens name rest (c :: cs) → value (String.ofList name) = none) :
    substituteChars value (c :: cs) = c :: substituteChars value cs := by
  rw [substituteChars]
  split
  · rename_i hc
    subst hc
    split
    · rename_i heq
      rw [h _ _ (placeholder?_eq_some_iff.mp heq)]
    · rfl
  · rfl

/-- **Filling in a template makes each of its tokens into its text**, and nothing that was put in is
    read again. -/
theorem substituteChars_of_scans {ts : List Token} (h : Scans (fun name => (value name).isSome) cs ts) :
    substituteChars value cs = ts.flatMap (Token.text fun name => (value name).getD "") := by
  induction h with
  | nil => rw [substituteChars, List.flatMap_nil]
  | placeholder opens hknown _ ih =>
      obtain ⟨text, htext⟩ := Option.isSome_iff_exists.mp hknown
      rw [substituteChars_placeholder opens htext, ih, List.flatMap_cons, Token.text, htext,
        Option.getD_some]
  | literal hunknown _ ih =>
      have hnone := fun name rest opens =>
        Option.not_isSome_iff_eq_none.mp (Bool.eq_false_iff.mp (hunknown name rest opens))
      rw [substituteChars_literal hnone, ih]
      rfl

/-- A text is copied if no character follows an opening brace in it. -/
theorem substituteChars_text (h : openBrace ∉ cs.dropLast) : substituteChars value cs = cs := by
  rw [substituteChars_of_scans (scans_literals _ h), List.flatMap_map]
  exact List.flatMap_singleton' cs

/-- What comes before an opening brace is filled in without a look at what follows. -/
theorem substituteChars_append_brace (before after : List Char) :
    substituteChars value (before ++ openBrace :: after)
      = substituteChars value before ++ substituteChars value (openBrace :: after) := by
  have hbefore := scans_tokens (fun name => (value name).isSome) before
  have hafter := scans_tokens (fun name => (value name).isSome) (openBrace :: after)
  rw [substituteChars_of_scans (hbefore.append_brace hafter), List.flatMap_append,
    ← substituteChars_of_scans hbefore, ← substituteChars_of_scans hafter]

/-- **A placeholder in doubled braces leaves one brace on each side of its text.** -/
theorem substituteChars_doubled {name : List Char} (hnamed : name ≠ [])
    (hchars : ∀ c ∈ name, isNameChar c = true) {text : String}
    (hvalue : value (String.ofList name) = some text) (before after : List Char) :
    substituteChars value
        (before ++ openBrace :: openBrace :: (name ++ closeBrace :: closeBrace :: after))
      = substituteChars value before
        ++ openBrace :: (text.toList ++ closeBrace :: substituteChars value after) := by
  have hbefore := scans_tokens (fun name => (value name).isSome) before
  have hafter := scans_tokens (fun name => (value name).isSome) after
  have hknown : (value (String.ofList name)).isSome = true := Option.isSome_of_eq_some hvalue
  rw [substituteChars_of_scans (hbefore.doubled hafter hnamed hchars hknown), substituteChars_of_scans hbefore,
    substituteChars_of_scans hafter, List.flatMap_append]
  simp only [List.flatMap_cons, Token.text, hvalue, Option.getD_some, List.singleton_append]

/-- Filling in a template adds no characters but those of the values. -/
theorem forall_substituteChars {p : Char → Prop}
    (hvalue : ∀ name text, value name = some text → ∀ c ∈ text.toList, p c)
    (cs : List Char) (hcs : ∀ c ∈ cs, p c) : ∀ c ∈ substituteChars value cs, p c := by
  have hscans := scans_tokens (fun name => (value name).isSome) cs
  generalize tokens _ cs = ts at hscans
  rw [substituteChars_of_scans hscans]
  induction hscans with
  | nil => exact hcs
  | placeholder opens hknown _ ih =>
      obtain ⟨text, htext⟩ := Option.isSome_iff_exists.mp hknown
      rw [opens.text, List.forall_mem_cons, List.forall_mem_append, List.forall_mem_cons] at hcs
      rw [List.flatMap_cons, Token.text, htext, Option.getD_some, List.forall_mem_append]
      exact ⟨hvalue _ _ htext, ih hcs.2.2.2⟩
  | literal _ _ ih =>
      obtain ⟨hhead, hrest⟩ := List.forall_mem_cons.mp hcs
      exact List.forall_mem_cons.mpr ⟨hhead, ih hrest⟩

/-- A text stays as it is if each of its placeholders has itself as its value or has none. -/
theorem substituteChars_eq_self (cs : List Char)
    (h : ∀ name text, value name = some text →
      text.toList = openBrace :: (name.toList ++ [closeBrace])) : substituteChars value cs = cs := by
  have hscans := scans_tokens (fun name => (value name).isSome) cs
  generalize tokens _ cs = ts at hscans
  rw [substituteChars_of_scans hscans]
  induction hscans with
  | nil => rfl
  | placeholder opens hknown _ ih =>
      obtain ⟨text, htext⟩ := Option.isSome_iff_exists.mp hknown
      rw [List.flatMap_cons, Token.text, htext, Option.getD_some, h _ _ htext, ih, opens.text,
        String.toList_ofList]
      simp
  | literal _ _ ih => rw [List.flatMap_cons, Token.text, ih, List.singleton_append]

end Fill

/-! ## The line of a block -/

/-- The placeholders of a template in the library are the parameters that its definition declares, each
    of them once and in the order of the declarations. -/
theorem tokens_builtin : ∀ d ∈ Catalog.builtin,
    (tokens (fun _ => true) d.template.toList).filterMap Token.name? = d.parameters.map Parameter.name := by
  decide +kernel

/-- Every template in the library has a character of its own that is not blank. -/
theorem exists_solid_builtin :
    ∀ d ∈ Catalog.builtin, ∃ t ∈ tokens (fun _ => true) d.template.toList, t.isSolid = true := by
  decide +kernel

end Source

namespace Block

open Source

/-- A parameter's value as text, in the shape that the parameter's formatter gives it. -/
def shapedText (b : Block) (name : String) : String :=
  match b.definition.val.formatter? name with
  | some formatter => formatter.apply (b.parameterText name)
  | none => b.parameterText name

theorem parameterSource?_of_mem {b : Block} {p : Parameter} (hp : p ∈ b.definition.val.parameters) :
    b.parameterSource? p.name = some (b.shapedText p.name) := by
  obtain ⟨q, -, hq, hname⟩ := Definition.exists_parameter?_of_mem hp
  -- The library has defaults throughout, so there is a value to be shaped.
  have hvalue : (b.parameter? p.name).isSome = true := by
    rw [parameter?_eq, Option.isSome_or, isSome_default? hp, Bool.or_true]
  obtain ⟨v, hv⟩ := Option.isSome_iff_exists.mp hvalue
  rw [parameterSource?, hq, Option.map_some, hname, hv, shapedText, parameterText, hv]
  rfl

variable {b : Block} {ts : List Token}

/-- The placeholders of a block's template are those of the parameters that its definition declares. -/
theorem filterMap_name?_of_scans (h : Scans (fun _ => true) b.definition.val.template.toList ts) :
    ts.filterMap Token.name? = b.definition.val.parameters.map Parameter.name := by
  rw [h.unique (scans_tokens _ _)]
  exact tokens_builtin _ b.definition.property

theorem parameterSource?_of_scans (h : Scans (fun _ => true) b.definition.val.template.toList ts)
    {name : String} (hname : name ∈ ts.filterMap Token.name?) :
    b.parameterSource? name = some (b.shapedText name) := by
  rw [filterMap_name?_of_scans h] at hname
  obtain ⟨p, hp, rfl⟩ := List.mem_map.mp hname
  exact parameterSource?_of_mem hp

/-- **The line of a block is its template with the shaped text of a parameter for each placeholder.** -/
theorem line_of_scans (h : Scans (fun _ => true) b.definition.val.template.toList ts) :
    b.line.toList = ts.flatMap (Token.text b.shapedText) := by
  have hscans : Scans (fun name => (b.parameterSource? name).isSome) b.definition.val.template.toList ts :=
    h.restrict (fun _ hknown => absurd hknown (by decide)) fun name hname =>
      Option.isSome_of_eq_some (parameterSource?_of_scans h hname)
  rw [line, substitute, String.toList_ofList, substituteChars_of_scans hscans]
  refine List.flatMap_congr fun t ht => ?_
  cases t with
  | literal c => rfl
  | placeholder name =>
      have hsource := parameterSource?_of_scans h (List.mem_filterMap.mpr ⟨.placeholder name, ht, rfl⟩)
      rw [Token.text, Token.text, hsource, Option.getD_some]

/-- **No block has a blank line**, whatever its values are. -/
theorem trimChars_line_ne_nil (b : Block) : Text.trimChars b.line.toList ≠ [] := by
  have hscans := scans_tokens (fun _ => true) b.definition.val.template.toList
  obtain ⟨t, ht, hsolid⟩ := exists_solid_builtin _ b.definition.property
  rw [ne_eq, Text.trimChars_eq_nil_iff, line_of_scans hscans]
  intro hall
  cases t with
  | literal c =>
      have hblank := hall c (List.mem_flatMap.mpr ⟨.literal c, ht, List.mem_singleton_self c⟩)
      rw [Token.isSolid, hblank] at hsolid
      cases hsolid
  | placeholder name => cases hsolid

/-- Doubled braces in a block's template leave braces around the text of the parameter. -/
theorem line_doubled {before name after : String} (hnamed : name ≠ "")
    (hchars : ∀ c ∈ name.toList, isNameChar c = true)
    (htemplate : b.definition.val.template = before ++ "\x7b\x7b" ++ name ++ "\x7d\x7d" ++ after) :
    b.line = substitute b.parameterSource? before ++ "\x7b" ++ b.shapedText name ++ "\x7d"
      ++ substitute b.parameterSource? after := by
  have hlist : b.definition.val.template.toList
      = before.toList ++ openBrace :: openBrace :: (name.toList ++ closeBrace :: closeBrace :: after.toList) := by
    rw [htemplate]
    simp [openBrace, closeBrace]
  have hnamed' : name.toList ≠ [] := fun h => hnamed (String.toList_eq_nil_iff.mp h)
  have hscans := (scans_tokens (fun _ => true) before.toList).doubled
    (scans_tokens (fun _ => true) after.toList) hnamed' hchars rfl
  rw [← hlist] at hscans
  have hsource : b.parameterSource? (String.ofList name.toList) = some (b.shapedText name) := by
    rw [String.ofList_toList]
    exact parameterSource?_of_scans hscans (by simp [Token.name?])
  refine String.toList_inj.mp ?_
  rw [line, substitute, hlist, substituteChars_doubled hnamed' hchars hsource]
  simp [substitute, openBrace, closeBrace]

end Block

namespace Source

/-- **Filling in a template replaces all its placeholders at once.** For any template and any values, the
    template has one sequence of tokens, which put together are the template, and the result is the texts
    of these tokens one after another: what a value holds is not read again, and a brace with which no
    placeholder begins is copied, the scan going on after it. A template stays as it is if each value that
    there is is the placeholder itself.

    So the line of a block has, for each placeholder of its template, the shaped text of the parameter
    that the placeholder names, and there are no others than the declared parameters. A parameter in
    doubled braces is written in braces. -/
theorem substitute_replaces (value : String → Option String) (template : String) (b : Block) :
    (∃! ts, Scans (fun name => (value name).isSome) template.toList ts) ∧
      (∀ ts, Scans (fun name => (value name).isSome) template.toList ts →
        ts.flatMap Token.source = template.toList ∧
          (substitute value template).toList = ts.flatMap (Token.text fun name => (value name).getD "")) ∧
      ((∀ name text, value name = some text → text = "\x7b" ++ name ++ "\x7d") →
        substitute value template = template) ∧
      (∃ ts, Scans (fun _ => true) b.definition.val.template.toList ts ∧
        ts.filterMap Token.name? = b.definition.val.parameters.map Parameter.name ∧
        b.line.toList = ts.flatMap (Token.text b.shapedText)) ∧
      ∀ before name after, name ≠ "" → (∀ c ∈ name.toList, isNameChar c = true) →
        b.definition.val.template = before ++ "\x7b\x7b" ++ name ++ "\x7d\x7d" ++ after →
        b.line = substitute b.parameterSource? before ++ "\x7b" ++ b.shapedText name ++ "\x7d"
          ++ substitute b.parameterSource? after := by
  have hscans := scans_tokens (fun name => (value name).isSome) template.toList
  have hline := scans_tokens (fun _ => true) b.definition.val.template.toList
  refine ⟨⟨_, hscans, fun _ hts => hts.unique hscans⟩, fun ts hts => ⟨hts.flatMap_source, ?_⟩, fun hself => ?_,
    ⟨_, hline, Block.filterMap_name?_of_scans hline, Block.line_of_scans hline⟩,
    fun _ _ _ hnamed hchars => Block.line_doubled hnamed hchars⟩
  · rw [substitute, String.toList_ofList]
    exact substituteChars_of_scans hts
  · refine String.toList_inj.mp ?_
    rw [substitute, String.toList_ofList]
    refine substituteChars_eq_self _ fun name text htext => ?_
    rw [hself name text htext]
    simp [openBrace, closeBrace]

/-- Values that hold braces themselves. -/
def bracedValue (name : String) : Option String :=
  if name = "a" then some "\x7bb\x7d" else if name = "b" then some "B" else none

/-- A value that reads like a placeholder stays as it is, and so does a placeholder without a value. -/
theorem substitute_replaces_braced :
    (substitute bracedValue "\x7ba\x7d-\x7b\x7bb\x7d\x7d \x7bzz\x7d\x7b").toList
        = "\x7bb\x7d-\x7bB\x7d \x7bzz\x7d\x7b".toList ∧
      substitute (fun name => some ("\x7b" ++ name ++ "\x7d")) "\x7b\x7bb\x7d \x7ba\x7bb"
        = "\x7b\x7bb\x7d \x7ba\x7bb" ∧
      (Block.fresh "d" (Catalog.entry "dict") .origin).line = "my_dict = \x7b\"key\": \"value\"\x7d" := by
  have hfilled := (substitute_replaces bracedValue "\x7ba\x7d-\x7b\x7bb\x7d\x7d \x7bzz\x7d\x7b"
    (Block.fresh "d" (Catalog.entry "dict") .origin)).2.1 _ (scans_tokens _ _)
  have hself := (substitute_replaces (fun name => some ("\x7b" ++ name ++ "\x7d")) "\x7b\x7bb\x7d \x7ba\x7bb"
    (Block.fresh "d" (Catalog.entry "dict") .origin)).2.2.1 fun _ _ h => (Option.some.inj h).symm
  have hdoubled := (substitute_replaces bracedValue "" (Block.fresh "d" (Catalog.entry "dict") .origin)).2.2.2.2
    "\x7bname\x7d = " "items" "" (by decide) (by decide) (by decide)
  refine ⟨hfilled.2.trans (by decide +kernel), hself, hdoubled.trans (by decide +kernel)⟩

end Source

end Blockwork
