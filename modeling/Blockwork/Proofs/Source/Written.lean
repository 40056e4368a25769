import Blockwork.Proofs.Source.Matching
import Blockwork.Proofs.Source.ReadBack
import Blockwork.Proofs.Source.Tokens
import Blockwork.Proofs.Text.Trim

/-!
# `Blockwork.Proofs.Source.Written`: the line that a reading is written as

What is written for a line depends on its reading alone: the template of the block, with the values
that the line names and the defaults of the others. A template is some texts with a parameter after
each of them and a text at the end, and filling it in puts the values where the parameters stand.

## Contents
- `Reading.written`, and `toList_line_block`: it is the line of the block.
- `Slot`, `Slot.Lays` and `written_eq`: the written line, slot by slot.
- `inline_written`: no line feed is written.
- `Reading.Kept`: a reading that may stand for another.
- `line_congr_parameter?`: what the line of a block depends on.
-/

namespace Blockwork

namespace Source

/-! ## The block of a reading -/

namespace Reading

/-- The block of a reading, at no particular place. -/
def specimen (r : Reading) : Block :=
  { Block.fresh "" r.block .origin with
    parameters := (Block.fresh "" r.block .origin).parameters.override
      (r.values.map fun (name, value) => (name, .text (String.ofList value))) }

/-- The line of a reading's block. -/
def written (r : Reading) : List Char :=
  r.specimen.line.toList

end Reading

theorem get?_override (s : Settings) (entries : List (String × Value)) (name : String) :
    (s.override entries).get? name = (entries.reverse.lookup name).or (s.get? name) := by
  induction entries generalizing s with
  | nil => rfl
  | cons e entries ih =>
      have hcons : s.override (e :: entries) = (s.insert e.1 e.2).override entries := rfl
      rw [hcons, ih, Settings.get?_insert, List.reverse_cons, List.lookup_append, Option.or_assoc]
      congr 1
      by_cases h : name = e.1
      · subst h
        have hself : [e].lookup e.1 = some e.2 := List.lookup_cons_self
        rw [hself, if_pos rfl]
        rfl
      · have hne : (name == e.1) = false := beq_eq_false_iff_ne.mpr h
        rw [if_neg (Ne.symm h), List.lookup_cons, hne]
        rfl

/-! ## Slots -/

/-- A parameter in a template, with the text before it. -/
structure Slot where
  lead : String
  name : String
  default : String
  formatter : Option Formatter

namespace Slot

/-- The slot in a template. -/
def template (s : Slot) : List Char :=
  s.lead.toList ++ openBrace :: (s.name.toList ++ [closeBrace])

/-- The text in place of the parameter: the value, or else the default. -/
def text (s : Slot) (values : List (String × List Char)) : List Char :=
  let value := (values.reverse.lookup s.name).getD s.default.toList
  match s.formatter with
  | some formatter => (formatter.apply (String.ofList value)).toList
  | none => value

/-- The slots and the text after the last of them are those of a definition. -/
def Lays (slots : List Slot) (ending : String) (d : Definition) : Prop :=
  d.template.toList = slots.flatMap template ++ ending.toList ∧ openBrace ∉ ending.toList ∧
    ∀ s ∈ slots, openBrace ∉ s.lead.toList.dropLast ∧ s.name.toList ≠ [] ∧
      (∀ c ∈ s.name.toList, isNameChar c = true) ∧ d.formatter? s.name = s.formatter ∧
      (d.parameter? s.name).map (fun p => (p.name, p.kind, p.default)) = some (s.name, .text, some s.default)

instance (slots : List Slot) (ending : String) (d : Definition) : Decidable (Lays slots ending d) :=
  inferInstanceAs (Decidable (_ ∧ _))

end Slot

/-- A new block has the declared defaults. -/
theorem get?_parameters_fresh (id : BlockId) (e : Entry) (position : Position) (name : String) :
    (Block.fresh id e position).parameters.get? name = (e.val.parameter? name).bind (·.defaultValue) :=
  Block.get?_fill _ name

theorem lookup_map_text (values : List (String × List Char)) (name : String) :
    (values.map fun (name, value) => (name, Value.text (String.ofList value))).lookup name
      = (values.lookup name).map fun value => .text (String.ofList value) := by
  induction values with
  | nil => rfl
  | cons v values ih =>
      rw [List.map_cons, List.lookup_cons, List.lookup_cons]
      cases name == v.1 with
      | true => rfl
      | false => exact ih

/-- A value that was read counts before the default. -/
theorem parameter?_specimen (r : Reading) (name : String) :
    r.specimen.parameter? name
      = ((r.values.reverse.lookup name).map fun cs => .text (String.ofList cs)).or
        ((r.block.val.parameter? name).bind (·.defaultValue)) := by
  have hdefinition : r.specimen.definition = r.block := rfl
  rw [Block.parameter?, hdefinition, Reading.specimen, get?_override, ← List.map_reverse, lookup_map_text,
    get?_parameters_fresh, Option.or_assoc, Option.or_self]

variable {e : Entry} {slots : List Slot} {ending : String}

theorem parameterSource?_specimen (h : Slot.Lays slots ending e.val) {s : Slot} (hs : s ∈ slots)
    (values : List (String × List Char)) :
    (Reading.specimen ⟨e, values⟩).parameterSource? s.name
      = some (String.ofList (s.text values)) := by
  obtain ⟨-, -, -, hformatter, hdeclared⟩ := h.2.2 s hs
  obtain ⟨p, hp, hdeclared⟩ := Option.map_eq_some_iff.mp hdeclared
  have hname : p.name = s.name := congrArg Prod.fst hdeclared
  have hdefault : p.defaultValue = some (.text s.default) := by
    have hkind : p.kind = .text := congrArg (·.2.1) hdeclared
    have htext : p.default = some s.default := congrArg (·.2.2) hdeclared
    rw [Parameter.defaultValue, hkind, htext]
    rfl
  have hvalue : (Reading.specimen ⟨e, values⟩).parameter? s.name
      = some (.text (String.ofList ((values.reverse.lookup s.name).getD s.default.toList))) := by
    rw [parameter?_specimen, hp, Option.bind_some, hdefault]
    cases values.reverse.lookup s.name with
    | some value => rfl
    | none => rw [Option.getD_none, String.ofList_toList, Option.map_none, Option.none_or]
  have hdefinition : (Reading.specimen ⟨e, values⟩).definition = e := rfl
  rw [Block.parameterSource?, hdefinition, hp, Option.map_some, hname, hvalue, hformatter, Slot.text]
  cases s.formatter with
  | some formatter => exact congrArg some (String.ofList_toList).symm
  | none => rfl

/-- **The written line has the texts of the template, and in each slot the value that was read** or the
    default. -/
theorem written_eq (h : Slot.Lays slots ending e.val) (values : List (String × List Char)) :
    Reading.written ⟨e, values⟩
      = slots.flatMap (fun s => s.lead.toList ++ s.text values) ++ ending.toList := by
  -- Induction on the slots that are left; each of them is one of the slots of the definition.
  have hfill : ∀ some : List Slot, (∀ s ∈ some, s ∈ slots) →
      substituteChars (Reading.specimen ⟨e, values⟩).parameterSource?
          (some.flatMap Slot.template ++ ending.toList)
        = some.flatMap (fun s => s.lead.toList ++ s.text values) ++ ending.toList := by
    intro some hsome
    induction some with
    | nil => exact substituteChars_text fun hmem => h.2.1 (List.dropLast_subset _ hmem)
    | cons s rest ih =>
        obtain ⟨hs, hrest⟩ := List.forall_mem_cons.mp hsome
        obtain ⟨hlead, hne, hchars, -⟩ := h.2.2 s hs
        have hvalue := parameterSource?_specimen h hs values
        rw [← String.ofList_toList (s := s.name)] at hvalue
        rw [List.flatMap_cons, List.flatMap_cons, Slot.template, List.append_assoc, List.append_assoc,
          List.cons_append, substituteChars_append_brace, substituteChars_text hlead, List.append_assoc,
          List.singleton_append, substituteChars_placeholder ⟨hne, hchars, rfl⟩ hvalue, ih hrest,
          String.toList_ofList, List.append_assoc, List.append_assoc]
  have htemplate : (Reading.specimen ⟨e, values⟩).definition.val.template.toList
      = slots.flatMap Slot.template ++ ending.toList := h.1
  rw [Reading.written, Block.line, substitute, String.toList_ofList, htemplate]
  exact hfill slots fun _ hs => hs

/-- The same for a single slot. -/
theorem written_one {lead name default : String}
    (h : Slot.Lays [⟨lead, name, default, none⟩] ending e.val) (value : List Char) :
    Reading.written ⟨e, [(name, value)]⟩ = lead.toList ++ (value ++ ending.toList) := by
  rw [written_eq h]
  simp [Slot.text]

/-! ## The characters that are written -/

section Characters

/-- The library is written without line feeds. -/
theorem inline_builtin : ∀ d ∈ Catalog.builtin, (∀ c ∈ d.template.toList, isInline c = true) ∧
    ∀ p ∈ d.parameters, ∀ v ∈ p.defaultValue, ∀ c ∈ v.display.toList, isInline c = true := by
  decide +kernel

theorem inline_apply (formatter : Formatter) {text : String} (h : ∀ c ∈ text.toList, isInline c = true) :
    ∀ c ∈ (formatter.apply text).toList, isInline c = true := by
  have hwrap : ∀ before after : String, (∀ c ∈ before.toList ++ after.toList, isInline c = true) →
      ∀ c ∈ (Formatter.wrapUnlessBlank before after text).toList, isInline c = true := by
    intro before after hends c hc
    rw [Formatter.wrapUnlessBlank] at hc
    split at hc
    · cases hc
    · rw [String.toList_append, String.toList_append, Text.toList_trim, List.mem_append, List.mem_append] at hc
      rcases hc with (hc | hc) | hc
      · exact hends c (List.mem_append_left _ hc)
      · exact h c (Text.mem_of_mem_trimChars hc)
      · exact hends c (List.mem_append_right _ hc)
  cases formatter with
  | asClause => exact hwrap " as " "" (by decide)
  | baseClass => exact hwrap "(" ")" (by decide)
  | quoted =>
      intro c hc
      rw [Formatter.apply, Formatter.quoteUnlessExpression] at hc
      split at hc
      · exact h c hc
      · have hquote : ∀ c ∈ "\"".toList, isInline c = true := by decide
        rw [String.toList_append, String.toList_append, List.mem_append, List.mem_append] at hc
        rcases hc with (hc | hc) | hc
        · exact hquote c hc
        · exact h c hc
        · exact hquote c hc

/-- **A line is written for values that are parts of a line.** -/
theorem inline_written {r : Reading} (h : ∀ v ∈ r.values, ∀ c ∈ v.2, isInline c = true) :
    ∀ c ∈ r.written, isInline c = true := by
  obtain ⟨htemplate, hdefaults⟩ := inline_builtin r.block.val r.block.property
  rw [Reading.written, Block.line, substitute, String.toList_ofList]
  refine forall_substituteChars (fun name text htext => ?_) _ htemplate
  obtain ⟨p, -, htext⟩ := Option.map_eq_some_iff.mp htext
  have hvalue : ∀ v ∈ r.specimen.parameter? p.name, ∀ c ∈ v.display.toList, isInline c = true := by
    intro v hv
    rw [Option.mem_def, parameter?_specimen, Option.or_eq_some_iff] at hv
    rcases hv with hread | ⟨-, hdefault⟩
    · obtain ⟨cs, hcs, rfl⟩ := Option.map_eq_some_iff.mp hread
      obtain ⟨before, after, hvalues, -⟩ := List.lookup_eq_some_iff.mp hcs
      have hread : (p.name, cs) ∈ r.values := by
        rw [← List.mem_reverse, hvalues]
        simp
      rw [Value.display, String.toList_ofList]
      exact h _ hread
    · obtain ⟨q, hq, hdefault⟩ := Option.bind_eq_some_iff.mp hdefault
      exact hdefaults q (List.mem_of_find?_eq_some hq) v hdefault
  cases hparameter : r.specimen.parameter? p.name with
  | none =>
      rw [hparameter] at htext
      rw [← htext]
      simp
  | some v =>
      have hv := hvalue v hparameter
      rw [hparameter] at htext
      rw [← htext]
      cases r.specimen.definition.val.formatter? p.name with
      | none => exact hv
      | some formatter => exact inline_apply formatter hv

end Characters

/-! ## Readings that say the same -/

namespace Reading

/-- A reading that may stand for `r` where `r` was written: it is written in the same way, may hold
    what `r` may hold, and belongs to the same group. -/
structure Kept (r again : Reading) : Prop where
  written : again.written = r.written
  opens : r.block.val.canOwnChildren = true → again.block.val.canOwnChildren = true
  group : again.block.val.kind.bucket = r.block.val.kind.bucket

theorem Kept.refl (r : Reading) : r.Kept r :=
  ⟨rfl, id, rfl⟩

/-- The line that is written for the reading can be told apart in a source, and reading it again gives
    a reading that may stand for this one. -/
structure Stable (r : Reading) : Prop where
  flush : Text.Flush r.written
  again : ∃ again, recognise? (Text.trimChars r.written) = some again ∧ r.Kept again

variable {r : Reading}

/-- It is enough that some rule fits what is written, and that every rule up to that one reads it as
    what it was written for. -/
theorem stable_of_fits {k : Nat} (hk : k < rules.length) (hflush : Text.Flush r.written)
    (hend : Text.Flush r.written.reverse) {parts : List (String × List Char)}
    (hfits : rules[k].pattern.Fits parts r.written)
    (hkept : ∀ j (hlength : j < rules.length) again, j ≤ k →
      rules[j].reading? r.written = some again → r.Kept again) : r.Stable := by
  obtain ⟨j, again, hj, hagain, hreading⟩ := exists_recognise?_of_fits hk hfits
  refine ⟨hflush, again, ?_, hkept j _ again hj hreading⟩
  rwa [Text.trimChars_eq_self hflush hend]

/-- The same where no earlier rule fits. -/
theorem stable_of_rule {k : Nat} (hk : k < rules.length) (hflush : Text.Flush r.written)
    (hend : Text.Flush r.written.reverse)
    (hearlier : ∀ j (hlength : j < rules.length), j < k → rules[j].reading? r.written = none)
    {parts : List (String × List Char)} (hfits : rules[k].pattern.Fits parts r.written)
    (hkept : ∀ again, rules[k].reading? r.written = some again → r.Kept again) : r.Stable := by
  refine stable_of_fits hk hflush hend hfits fun j hlength again hj hagain => ?_
  rcases Nat.lt_or_eq_of_le hj with hlt | rfl
  · rw [hearlier j hlength hlt] at hagain
    cases hagain
  · exact hkept again hagain

end Reading

/-- A line that begins in a way in which no line of the first rules begins. -/
theorem reading?_eq_none_of_clash {k : Nat} (lead : List Char)
    (hclash : ∀ rule ∈ rules.take k, rule.pattern.clashes lead = true) {j : Nat} (hj : j < k)
    (hj' : j < rules.length) (rest : List Char) : rules[j].reading? (lead ++ rest) = none := by
  cases hreading : rules[j].reading? (lead ++ rest) with
  | none => rfl
  | some r =>
      obtain ⟨parts, hparts, -⟩ := Rule.exists_fits hreading
      refine absurd hparts (Pattern.not_fits_of_clashes (hclash _ ?_) rest)
      exact List.mem_take_iff_getElem.mpr ⟨j, by omega, rfl⟩

/-! ## The line of a statement's block -/

/-- The type of a block, and what asking it for values gives, are all that its line depends on. -/
theorem line_congr_parameter? {b b' : Block} (hdefinition : b.definition = b'.definition)
    (h : ∀ name, b.parameter? name = b'.parameter? name) : b.line = b'.line := by
  have hsource : b.parameterSource? = b'.parameterSource? := by
    funext name
    rw [Block.parameterSource?, Block.parameterSource?, hdefinition]
    simp only [h]
  rw [Block.line, Block.line, hsource, hdefinition]

theorem line_congr {b b' : Block} (hdefinition : b.definition = b'.definition)
    (hparameters : b.parameters = b'.parameters) : b.line = b'.line := by
  refine line_congr_parameter? hdefinition fun name => ?_
  rw [Block.parameter?, Block.parameter?, hdefinition, hparameters]

theorem parameters_fresh (id : BlockId) (e : Entry) (p : Position) :
    (Block.fresh id e p).parameters = e.val.parameters.foldl Block.fillParameter .empty := rfl

/-- The line of a block is what the reading of its statement is written as, for the type of the
    block. -/
theorem toList_line_block (s : Statement) (parent : Option Block) :
    (s.block parent).line.toList = Reading.written ⟨s.definition parent, s.content.values⟩ := by
  have hdefinition : (s.block parent).definition
      = (Reading.specimen ⟨s.definition parent, s.content.values⟩).definition := by
    rw [definition_block]
    rfl
  have hparameters : (s.block parent).parameters
      = (Reading.specimen ⟨s.definition parent, s.content.values⟩).parameters := by
    show (Block.fresh _ _ _).parameters.override _ = (Block.fresh _ _ _).parameters.override _
    rw [parameters_fresh, parameters_fresh]
    rfl
  rw [Reading.written, line_congr hdefinition hparameters]

/-- A method is written as a function if the line gives both parameters. -/
theorem written_method {name params : List Char} :
    Reading.written ⟨Catalog.entry "method", [("name", name), ("params", params)]⟩
      = Reading.written ⟨Catalog.entry "function", [("name", name), ("params", params)]⟩ := by
  have hmethod : Slot.Lays [⟨"def ", "name", "__init__", none⟩, ⟨"(", "params", "self", none⟩] "):"
      (Catalog.entry "method").val := by decide +kernel
  have hfunction : Slot.Lays [⟨"def ", "name", "my_function", none⟩, ⟨"(", "params", "", none⟩] "):"
      (Catalog.entry "function").val := by decide +kernel
  rw [written_eq hmethod, written_eq hfunction]
  rfl

end Source

end Blockwork
