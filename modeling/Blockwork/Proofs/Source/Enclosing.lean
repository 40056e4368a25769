import Blockwork.Proofs.Source.Clauses
import Blockwork.Proofs.Source.Layout

/-!
# `Blockwork.Proofs.Source.Enclosing`: which line holds a line

The rule of indentation looks back from a line: it is held by the last line before it that may hold
anything and that every line since, the line itself included, is indented further than. Nesting is done
from the last line to the first, so the rule is proved for a longer and longer end of the source: an item
put before suites becomes the holder of the items that had none, as far as everything from the first of
them on is indented further.

## Contents
- `Suite.heldAll`, the items with their holders.
- `adopt`, and `heldAll_graft`: what an item takes in.
- `Encloses` and `IsLast`, the rule; `isLast_heldAll_nest`, that nesting follows it.
- `LineEncloses`, the rule for the lines of a source.
- `Forest.HeldBy`, and `Conversion.nesting_of_indentation`.
-/

namespace Blockwork

namespace Source

variable {α : Type} {indent : α → Nat} {opens : α → Bool}

/-! ## Holders -/

namespace Suite

mutual

/-- The items of a suite, each with the item that holds it. -/
def held (outer : Option α) : Suite α → List (α × Option α)
  | node a body => (a, outer) :: heldAll (some a) body

/-- The items of a list of suites, each with the item that holds it. -/
def heldAll (outer : Option α) : List (Suite α) → List (α × Option α)
  | [] => []
  | s :: ss => held outer s ++ heldAll outer ss

end

theorem heldAll_cons (outer : Option α) (a : α) (body ss : List (Suite α)) :
    heldAll outer (node a body :: ss)
      = (a, outer) :: (heldAll (some a) body ++ heldAll outer ss) := by
  rw [heldAll, held, List.cons_append]

theorem heldAll_append (outer : Option α) (ss ts : List (Suite α)) :
    heldAll outer (ss ++ ts) = heldAll outer ss ++ heldAll outer ts := by
  induction ss with
  | nil => rfl
  | cons s ss ih => rw [List.cons_append, heldAll, heldAll, ih, List.append_assoc]

theorem map_fst_heldAll (outer : Option α) (ss : List (Suite α)) :
    (heldAll outer ss).map Prod.fst = preorderAll ss := by
  induction ss using siblingInduction generalizing outer with
  | nil => rfl
  | cons a body ss ihBody ihSs =>
      rw [heldAll_cons, preorderAll_cons, List.map_cons, List.map_append, ihBody, ihSs]

/-- An item with a holder, which is `a` if it had none. -/
def orHeldBy (a : α) (x : α × Option α) : α × Option α :=
  (x.1, x.2.or (some a))

/-- Suites inside an item have it as the holder where they had none. -/
theorem heldAll_some (a : α) (ss : List (Suite α)) :
    heldAll (some a) ss = (heldAll none ss).map (orHeldBy a) := by
  induction ss using siblingInduction generalizing a with
  | nil => rfl
  | cons b body ss ihBody ihSs =>
      have hkept : orHeldBy a ∘ orHeldBy b = orHeldBy b := by
        funext x
        cases x with
        | mk x holder => cases holder <;> rfl
      rw [heldAll_cons, heldAll_cons, ihSs, ihBody b, List.map_cons, List.map_append, List.map_map, hkept]
      rfl

end Suite

open Suite (heldAll orHeldBy)

/-- The items as far as they are indented further than `a`, held by `a` if they had no holder, and the
    others as they are. -/
def adopt (indent : α → Nat) (a : α) (xs : List (α × Option α)) : List (α × Option α) :=
  (xs.takeWhile fun x => indent a < indent x.1).map (orHeldBy a) ++
    xs.dropWhile fun x => indent a < indent x.1

/-- **An item that opens a suite adopts what follows.** -/
theorem heldAll_graft (a : α) {following : List (Suite α)}
    (h : Suite.Below (fun a b => indent a < indent b) following) :
    heldAll none (graft indent opens a following)
      = (a, none) :: if opens a then adopt indent a (heldAll none following) else heldAll none following := by
  unfold graft
  by_cases hopens : opens a = true
  · rw [if_pos hopens, if_pos hopens, Suite.heldAll_cons, Suite.heldAll_some]
    generalize hbody : following.takeWhile (fun s => indent a < indent s.item) = body
    generalize hrest : following.dropWhile (fun s => indent a < indent s.item) = rest
    have hparts : body ++ rest = following := by
      rw [← hbody, ← hrest]
      exact List.takeWhile_append_dropWhile
    rw [← hparts, Suite.below_append] at h
    -- What stands in the suites taken in is indented further than `a`, and the next suite is not.
    have hinside : ∀ x ∈ heldAll none body, decide (indent a < indent x.1) = true := by
      intro x hx
      have hroots : ∀ s ∈ body, indent a < indent s.item := by
        intro s hs
        rw [← hbody] at hs
        simpa using List.mem_takeWhile_imp hs
      have hmem : x.1 ∈ Suite.preorderAll body := by
        rw [← Suite.map_fst_heldAll none]
        exact List.mem_map_of_mem hx
      exact decide_eq_true (h.1.lt_of_mem hroots _ hmem)
    have hstop : (heldAll none rest).takeWhile (fun x => indent a < indent x.1) = [] ∧
        (heldAll none rest).dropWhile (fun x => indent a < indent x.1) = heldAll none rest := by
      cases rest with
      | nil => exact ⟨rfl, rfl⟩
      | cons s ss =>
          cases s with
          | node b below =>
              have hnot := List.head?_dropWhile_not (fun s : Suite α => indent a < indent s.item) following
              rw [hrest] at hnot
              have hb : ¬indent a < indent b := of_decide_eq_false hnot
              rw [Suite.heldAll_cons]
              exact ⟨List.takeWhile_cons_of_neg (by simpa using hb),
                List.dropWhile_cons_of_neg (by simpa using hb)⟩
    rw [adopt, ← hparts, Suite.heldAll_append, List.takeWhile_append_of_pos hinside,
      List.dropWhile_append_of_pos hinside, hstop.1, hstop.2, List.append_nil]
  · rw [if_neg hopens, if_neg hopens, Suite.heldAll_cons]
    rfl

/-! ## The rule -/

/-- The item at `j` encloses the item at `i`: it stands before it, opens a suite, and everything after it
    up to that item is indented further. -/
def Encloses (indent : α → Nat) (opens : α → Bool) (items : List α) (j i : Nat) : Prop :=
  j < i ∧ ∃ a, items[j]? = some a ∧ opens a = true ∧
    ∀ k, j < k → k ≤ i → ∃ b, items[k]? = some b ∧ indent a < indent b

/-- The last item that stands in a relation to the item at `i`, if there is one. -/
def IsLast (encloses : Nat → Nat → Prop) (i : Nat) : Option Nat → Prop
  | none => ∀ j, ¬encloses j i
  | some j => encloses j i ∧ ∀ j', encloses j' i → j' ≤ j

theorem IsLast.congr {R S : Nat → Nat → Prop} {i : Nat} {last : Option Nat} (h : IsLast R i last)
    (hiff : ∀ j, R j i ↔ S j i) : IsLast S i last := by
  cases last with
  | none => exact fun j hj => h j ((hiff j).mpr hj)
  | some last => exact ⟨(hiff last).mp h.1, fun j hj => h.2 j ((hiff j).mpr hj)⟩

theorem adopt_cons (a : α) (x : α × Option α) (xs : List (α × Option α)) :
    adopt indent a (x :: xs)
      = if indent a < indent x.1 then orHeldBy a x :: adopt indent a xs else x :: xs := by
  rw [adopt]
  by_cases hlt : indent a < indent x.1
  · rw [if_pos hlt, List.takeWhile_cons_of_pos (by simpa using hlt),
      List.dropWhile_cons_of_pos (by simpa using hlt)]
    rfl
  · rw [if_neg hlt, List.takeWhile_cons_of_neg (by simpa using hlt),
      List.dropWhile_cons_of_neg (by simpa using hlt)]
    rfl

theorem length_adopt (a : α) (xs : List (α × Option α)) : (adopt indent a xs).length = xs.length := by
  rw [adopt, List.length_append, List.length_map, ← List.length_append,
    List.takeWhile_append_dropWhile]

/-- What stands at a place is adopted if everything up to it is indented further, and not otherwise. -/
theorem getElem?_adopt (a : α) {xs : List (α × Option α)} {i : Nat} {x : α × Option α}
    (h : xs[i]? = some x) :
    (adopt indent a xs)[i]? = some (orHeldBy a x) ∧
        (∀ k, k ≤ i → ∃ y, xs[k]? = some y ∧ indent a < indent y.1) ∨
      (adopt indent a xs)[i]? = some x ∧
        ∃ k, k ≤ i ∧ ∃ y, xs[k]? = some y ∧ ¬indent a < indent y.1 := by
  induction xs generalizing i with
  | nil => simp at h
  | cons y xs ih =>
      rw [adopt_cons]
      by_cases hlt : indent a < indent y.1
      · rw [if_pos hlt]
        cases i with
        | zero =>
            obtain rfl : y = x := Option.some.inj h
            refine Or.inl ⟨rfl, fun k hk => ⟨y, ?_, hlt⟩⟩
            rw [Nat.le_zero.mp hk]
            rfl
        | succ i =>
            rcases ih h with ⟨hadopted, hall⟩ | ⟨hkept, k, hk, hstop⟩
            · refine Or.inl ⟨hadopted, fun k hk => ?_⟩
              cases k with
              | zero => exact ⟨y, rfl, hlt⟩
              | succ k => exact hall k (Nat.le_of_succ_le_succ hk)
            · exact Or.inr ⟨hkept, k + 1, Nat.succ_le_succ hk, hstop⟩
      · rw [if_neg hlt]
        exact Or.inr ⟨h, 0, Nat.zero_le i, y, rfl, hlt⟩

variable {items : List α} {a : α} {i j : Nat}

theorem encloses_succ :
    Encloses indent opens (a :: items) (j + 1) (i + 1) ↔ Encloses indent opens items j i := by
  unfold Encloses
  rw [List.getElem?_cons_succ]
  refine and_congr Nat.succ_lt_succ_iff (exists_congr fun b => ?_)
  refine and_congr_right fun _ => and_congr_right fun _ => ?_
  constructor
  · intro h k hj hi
    exact h (k + 1) (Nat.succ_lt_succ hj) (Nat.succ_le_succ hi)
  · intro h k hj hi
    cases k with
    | zero => exact absurd hj (Nat.not_lt_zero _)
    | succ k => exact h k (Nat.lt_of_succ_lt_succ hj) (Nat.le_of_succ_le_succ hi)

theorem encloses_zero : Encloses indent opens (a :: items) 0 (i + 1) ↔
    opens a = true ∧ ∀ k, k ≤ i → ∃ b, items[k]? = some b ∧ indent a < indent b := by
  unfold Encloses
  constructor
  · rintro ⟨-, b, hb, hopens, hall⟩
    obtain rfl : a = b := Option.some.inj hb
    exact ⟨hopens, fun k hk => hall (k + 1) (Nat.succ_pos k) (Nat.succ_le_succ hk)⟩
  · rintro ⟨hopens, hall⟩
    refine ⟨Nat.succ_pos i, a, rfl, hopens, fun k hj hi => ?_⟩
    cases k with
    | zero => exact absurd hj (Nat.lt_irrefl 0)
    | succ k => exact hall k (Nat.le_of_succ_le_succ hi)

/-- An item put before the others is the last one to enclose only what none of them encloses. -/
theorem IsLast.succ {last : Option Nat} (h : IsLast (Encloses indent opens items) i last)
    (hfirst : Encloses indent opens (a :: items) 0 (i + 1) → last ≠ none) :
    IsLast (Encloses indent opens (a :: items)) (i + 1) (last.map (· + 1)) := by
  cases last with
  | none =>
      intro j hj
      cases j with
      | zero => exact hfirst hj rfl
      | succ j => exact h j (encloses_succ.mp hj)
  | some last =>
      refine ⟨encloses_succ.mpr h.1, fun j hj => ?_⟩
      cases j with
      | zero => exact Nat.zero_le _
      | succ j => exact Nat.succ_le_succ (h.2 j (encloses_succ.mp hj))

theorem IsLast.first (h : IsLast (Encloses indent opens items) i none)
    (hfirst : Encloses indent opens (a :: items) 0 (i + 1)) :
    IsLast (Encloses indent opens (a :: items)) (i + 1) (some 0) := by
  refine ⟨hfirst, fun j hj => ?_⟩
  cases j with
  | zero => exact Nat.le_refl 0
  | succ j => exact absurd (encloses_succ.mp hj) (h j)

theorem bind_map_succ (a : α) (items : List α) (last : Option Nat) :
    ((last.map (· + 1)).bind fun j => (a :: items)[j]?) = last.bind fun j => items[j]? := by
  cases last <;> rfl

/-- What `a` adopts of items that are held by the rule is held by the rule once `a` is put first. -/
theorem isLast_adopt {xs : List (α × Option α)} {x y : α × Option α} {last : Option Nat}
    (hopens : opens a = true) (hxs : ∀ k : Nat, items[k]? = xs[k]?.map Prod.fst)
    (hy : xs[i]? = some y) (hlast : IsLast (Encloses indent opens items) i last)
    (hholder : y.2 = last.bind fun j => items[j]?) (hx : (adopt indent a xs)[i]? = some x) :
    ∃ last, IsLast (Encloses indent opens (a :: items)) (i + 1) last ∧
      x.2 = last.bind fun j => (a :: items)[j]? := by
  rcases getElem?_adopt a hy with ⟨hadopted, hall⟩ | ⟨hkept, k, hk, z, hz, hstop⟩
  · -- Everything up to the item is indented further, so it is held by `a` unless it was held.
    obtain rfl : orHeldBy a y = x := Option.some.inj (hadopted.symm.trans hx)
    have hfirst : Encloses indent opens (a :: items) 0 (i + 1) := by
      refine encloses_zero.mpr ⟨hopens, fun k hk => ?_⟩
      obtain ⟨z, hz, hlt⟩ := hall k hk
      exact ⟨z.1, by rw [hxs, hz]; rfl, hlt⟩
    cases last with
    | none => exact ⟨some 0, hlast.first hfirst, by rw [orHeldBy, hholder]; rfl⟩
    | some last =>
        obtain ⟨-, b, hb, -⟩ := hlast.1
        refine ⟨some (last + 1), hlast.succ fun _ => Option.some_ne_none last, ?_⟩
        rw [orHeldBy, hholder, Option.bind_some, hb, Option.bind_some, List.getElem?_cons_succ, hb]
        rfl
  · -- Something in between is indented no further, so `a` does not enclose the item.
    obtain rfl : y = x := Option.some.inj (hkept.symm.trans hx)
    refine ⟨last.map (· + 1), hlast.succ fun hfirst => ?_, ?_⟩
    · obtain ⟨b, hb, hlt⟩ := (encloses_zero.mp hfirst).2 k hk
      rw [hxs, hz] at hb
      obtain rfl := Option.some.inj hb
      exact absurd hlt hstop
    · rw [bind_map_succ]
      exact hholder

/-- **Nesting follows the rule**: the holder of an item is the last one that encloses it. -/
theorem isLast_heldAll_nest {x : α × Option α}
    (h : (heldAll none (nest indent opens items))[i]? = some x) :
    ∃ last, IsLast (Encloses indent opens items) i last ∧ x.2 = last.bind fun j => items[j]? := by
  induction items generalizing i x with
  | nil => simp [nest, heldAll] at h
  | cons a items ih =>
      have hbelow : Suite.Below (fun a b => indent a < indent b) (nest indent opens items) :=
        nest_below (fun _ _ _ hlt => hlt) items
      have hitems : ∀ k : Nat,
          items[k]? = (heldAll none (nest indent opens items))[k]?.map Prod.fst := by
        intro k
        rw [← List.getElem?_map (f := Prod.fst), Suite.map_fst_heldAll, preorderAll_nest]
      have hgraft : heldAll none (nest indent opens (a :: items)) = _ := heldAll_graft a hbelow
      rw [hgraft] at h
      cases i with
      | zero =>
          obtain rfl := Option.some.inj h
          exact ⟨none, fun j hj => Nat.not_lt_zero j hj.1, rfl⟩
      | succ i =>
          rw [List.getElem?_cons_succ] at h
          by_cases hopens : opens a = true
          · rw [if_pos hopens] at h
            have hi : i < (heldAll none (nest indent opens items)).length := by
              rw [← length_adopt a]
              exact (List.getElem?_eq_some_iff.mp h).1
            have hget := List.getElem?_eq_getElem hi
            obtain ⟨last, hlast, hholder⟩ := ih hget
            exact isLast_adopt hopens hitems hget hlast hholder h
          · rw [if_neg hopens] at h
            obtain ⟨last, hlast, hholder⟩ := ih h
            refine ⟨last.map (· + 1), hlast.succ fun hfirst => ?_, ?_⟩
            · exact absurd (encloses_zero.mp hfirst).1 hopens
            · rw [bind_map_succ]
              exact hholder

/-! ## The lines of a source -/

/-- The indentation of the lines that are not blank. -/
def indents (source : String) : List Nat :=
  (outline source.toList).map Prod.fst

/-- Line `j` encloses line `i`, lines that are blank not being counted: it stands before it, its block may
    hold others, and every line after it up to that line is indented further. -/
def LineEncloses (source : String) (j i : Nat) : Prop :=
  j < i ∧
  (∃ c, (Conversion.ofSource source).forest.blocks[j]? = some c ∧ c.canOwnChildren = true) ∧
  ∃ width, (indents source)[j]? = some width ∧
    ∀ k, j < k → k ≤ i → ∃ further, (indents source)[k]? = some further ∧ width < further

variable {source : String} {s : Statement}

theorem indents_eq (source : String) : indents source = (statementsOf source).map (·.line.indent) := by
  rw [indents, outline, ← map_outline_linesFrom 1 1, statementsOf, List.map_map, List.map_map]
  rfl

theorem exists_block_of_statement {k : Nat} (h : (statementsOf source)[k]? = some s) :
    ∃ parent, (Conversion.ofSource source).forest.blocks[k]? = some (s.block parent) := by
  have hblocks := forall₂_blocksAll_treesOf (statementsOf source)
  obtain ⟨hk, rfl⟩ := List.getElem?_eq_some_iff.mp h
  have hk' : k < (Tree.blocksAll (treesOf (statementsOf source))).length := hblocks.length_eq ▸ hk
  obtain ⟨parent, hb⟩ := hblocks.get hk hk'
  rw [List.get_eq_getElem, List.get_eq_getElem] at hb
  refine ⟨parent, ?_⟩
  rw [blocks_ofSource, List.getElem?_eq_getElem hk', hb]

/-- The rule for statements is the rule for lines. -/
theorem encloses_statementsOf_iff {j i : Nat} :
    Encloses (fun s : Statement => s.line.indent) Statement.opensSuite (statementsOf source) j i ↔
      LineEncloses source j i := by
  unfold Encloses LineEncloses
  rw [indents_eq]
  simp only [List.getElem?_map]
  refine and_congr_right fun _ => ?_
  constructor
  · rintro ⟨s, hs, hopens, hall⟩
    obtain ⟨parent, hb⟩ := exists_block_of_statement hs
    refine ⟨⟨s.block parent, hb, by rw [canOwnChildren_block, hopens]⟩, s.line.indent, by rw [hs]; rfl, ?_⟩
    intro k hj hi
    obtain ⟨t, ht, hlt⟩ := hall k hj hi
    exact ⟨t.line.indent, by rw [ht]; rfl, hlt⟩
  · rintro ⟨⟨c, hc, hopens⟩, width, hwidth, hall⟩
    obtain ⟨s, hs, rfl⟩ := Option.map_eq_some_iff.mp hwidth
    obtain ⟨parent, hb⟩ := exists_block_of_statement hs
    obtain rfl : s.block parent = c := Option.some.inj (hb.symm.trans hc)
    refine ⟨s, hs, by rwa [canOwnChildren_block] at hopens, fun k hj hi => ?_⟩
    obtain ⟨further, hfurther, hlt⟩ := hall k hj hi
    obtain ⟨t, ht, rfl⟩ := Option.map_eq_some_iff.mp hfurther
    exact ⟨t, ht, hlt⟩

/-- The blocks of suites stand inside the blocks of the holders. -/
theorem forall₂_heldAll_toTrees {blocks : List Block} {outer : Option Statement} {container : Option Block}
    (houter : Option.Rel (fun s c => c ∈ blocks ∧ ∃ parent, c = Statement.block parent s) outer container)
    (ss : List (Suite Statement)) (hss : ∀ b ∈ Tree.blocksAll (Suite.toTrees container ss), b ∈ blocks) :
    List.Forall₂
      (fun x b => ∃ parent, b = Statement.block parent x.1 ∧
        Option.Rel (fun s c => c ∈ blocks ∧ ∃ parent, c = Statement.block parent s) x.2 parent)
      (heldAll outer ss) (Tree.blocksAll (Suite.toTrees container ss)) := by
  induction ss using Suite.siblingInduction generalizing outer container with
  | nil => exact .nil
  | cons s body ss ihBody ihSs =>
      rw [toTrees_cons, Tree.blocksAll_cons, List.forall_mem_cons, List.forall_mem_append] at hss
      rw [Suite.heldAll_cons, toTrees_cons, Tree.blocksAll_cons]
      refine .cons ⟨container, rfl, houter⟩ (List.rel_append (ihBody ?_ hss.2.1) (ihSs houter hss.2.2))
      exact .some ⟨hss.1, container, rfl⟩

theorem row_of_getElem? {k : Nat} (h : (statementsOf source)[k]? = some s) : s.line.row = k + 1 := by
  have hk : k < (nonBlankLines source).length := by
    rw [← length_statementsOf]
    exact (List.getElem?_eq_some_iff.mp h).1
  have hrow := congrArg (fun rows : List Nat => rows[k]?) (map_row_statementsOf source)
  simp only [List.getElem?_map, h, Option.map_some, List.getElem?_range' hk] at hrow
  have := Option.some.inj hrow
  omega

/-- A block of the forest that is the block of a line, inside whatever, is the one at its place. -/
theorem getElem?_of_block_eq {k : Nat} (hs : (statementsOf source)[k]? = some s) {c : Block}
    (hc : c ∈ (Conversion.ofSource source).forest.blocks) (hblock : ∃ parent, c = s.block parent) :
    (Conversion.ofSource source).forest.blocks[k]? = some c := by
  obtain ⟨m, hm⟩ := List.mem_iff_getElem?.mp hc
  have hlength : m < (statementsOf source).length := by
    rw [(forall₂_blocksAll_treesOf (statementsOf source)).length_eq, ← blocks_ofSource]
    exact (List.getElem?_eq_some_iff.mp hm).1
  have hs' := List.getElem?_eq_getElem hlength
  obtain ⟨parent', hb⟩ := exists_block_of_statement hs'
  obtain ⟨parent, hc⟩ := hblock
  -- Both descriptions of the block end its id in a row, and rows count the lines.
  have hid := congrArg Block.id ((Option.some.inj (hb.symm.trans hm)).trans hc)
  rw [id_block, id_block] at hid
  have hrow : m + 1 = k + 1 := by
    rw [← row_of_getElem? hs', ← row_of_getElem? hs]
    exact Serial.eq_of_append_toString_eq hid
  rw [← Nat.succ.inj hrow]
  exact hm

/-! ## Functions and methods -/

/-- The rule for lines that define a function. -/
def definitionRule : Rule :=
  rules[3]

/-- No earlier rule reads a line that defines a function. -/
theorem exists_recognise?_of_definition {line : List Char}
    (h : (definitionRule.reading? line).isSome = true) :
    ∃ r, recognise? line = some r ∧ r.block = Catalog.entry "function" := by
  obtain ⟨r, hr⟩ := Option.isSome_iff_exists.mp h
  obtain ⟨parts, hfits, -⟩ := Rule.exists_fits hr
  obtain ⟨j, r, hj, hrecognised, hreading⟩ := exists_recognise?_of_fits (by decide) hfits
  have hlead : ∃ rest, line = "def".toList ++ rest := by
    rw [definitionRule, rule_function, Pattern.fits_text_append] at hfits
    obtain ⟨rest, rfl, -⟩ := hfits
    exact ⟨rest, rfl⟩
  obtain ⟨rest, rfl⟩ := hlead
  rcases Nat.lt_or_eq_of_le hj with hlt | rfl
  · rw [reading?_eq_none_of_clash "def".toList (k := 3) (by decide) hlt (hlt.trans (by decide)) rest]
      at hreading
    cases hreading
  · obtain ⟨parts, -, rfl⟩ := Rule.exists_fits hreading
    exact ⟨_, hrecognised, rfl⟩

/-- **A line that defines a function is a method right inside a class, and a function elsewhere.** -/
theorem kind_block_of_definition {l : Line} (h : (definitionRule.reading? l.text).isSome = true)
    (parent : Option Block) :
    (((Statement.ofLine l).block parent).kind = .method ↔ parent.map Block.kind = some .class) ∧
      (((Statement.ofLine l).block parent).kind = .function ↔ parent.map Block.kind ≠ some .class) := by
  obtain ⟨r, hr, hblock⟩ := exists_recognise?_of_definition h
  have hcontent : (Statement.ofLine l).content = r := by
    rw [Statement.content, Statement.ofLine, hr]
    rfl
  have hfunction : (Catalog.entry "function").val.kind = .function := by decide
  have hmethod : (Catalog.entry "method").val.kind = .method := by decide
  rw [Block.kind, definition_block, definition_eq, hcontent, hblock, hfunction]
  by_cases hclass : parent.map Block.kind = some .class
  · rw [if_pos ⟨rfl, hclass⟩, hmethod]
    simp [hclass]
  · rw [if_neg fun hboth => hclass hboth.2, hfunction]
    simp [hclass]

end Source

/-! ## The forest of a source -/

namespace Forest

variable {f : Forest}

/-- A block stands right inside another one, or at the top level. -/
def HeldBy (f : Forest) (b : Block) : Option Block → Prop
  | none => ∃ t ∈ f.roots, t.block = b
  | some c => ∃ t ∈ f.subtrees, t.block = c ∧ ∃ u ∈ t.children, u.block = b

/-- In a valid forest a block stands where it says. -/
theorem heldBy_of_parent (hf : f.Valid) {b : Block} (hb : b ∈ f.blocks) {parent : Option Block}
    (hmem : ∀ c ∈ parent, c ∈ f.blocks) (h : b.parent = parent.map Block.id) : f.HeldBy b parent := by
  obtain ⟨hhangs, hdistinct⟩ := valid_iff_sound.mp hf
  obtain ⟨hroots, hparent, -⟩ := Tree.hangsAll_iff.mp hhangs
  obtain ⟨t, ht, rfl⟩ := List.mem_map.mp hb
  rcases Tree.mem_subtreesAll_cases ht with hroot | ⟨u, hu, hchild⟩
  · rw [hroots t hroot] at h
    cases parent with
    | none => exact ⟨t, hroot, rfl⟩
    | some c => cases h
  · rw [hparent u hu t hchild] at h
    cases parent with
    | none => cases h
    | some c =>
        have hid : u.block.id = c.id := Option.some.inj h
        have hblock := block_eq_of_id_eq hdistinct (List.mem_map_of_mem hu) (hmem c rfl) hid
        exact ⟨u, hu, hblock, t, hchild, rfl⟩

end Forest

namespace Conversion

open Source

/-- The block of a statement stands right inside the block of the last statement that encloses it. -/
theorem exists_parent_of_statement {source : String} {i : Nat} {s : Statement}
    (hs : (statementsOf source)[i]? = some s) :
    ∃ (last : Option Nat) (parent : Option Block),
      (ofSource source).forest.blocks[i]? = some (s.block parent) ∧
      IsLast (LineEncloses source) i last ∧
      (parent = last.bind fun j => (ofSource source).forest.blocks[j]?) ∧
      ∀ c ∈ parent, c ∈ (ofSource source).forest.blocks := by
  have hblocks : ∀ b ∈ Tree.blocksAll (treesOf (statementsOf source)),
      b ∈ (ofSource source).forest.blocks := by
    rw [blocks_ofSource]
    exact fun _ hb => hb
  have hheld := forall₂_heldAll_toTrees .none _ hblocks
  -- The statement with its holder, and its block.
  have hitem := congrArg (fun items : List Statement => items[i]?)
    ((Suite.map_fst_heldAll none _).trans
      (preorderAll_nest (fun s : Statement => s.line.indent) Statement.opensSuite (statementsOf source)))
  simp only [List.getElem?_map, hs] at hitem
  obtain ⟨⟨_, holder⟩, hholder, rfl⟩ := Option.map_eq_some_iff.mp hitem
  obtain ⟨hi, hx⟩ := List.getElem?_eq_some_iff.mp hholder
  have hi' : i < (Tree.blocksAll (treesOf (statementsOf source))).length := hheld.length_eq ▸ hi
  obtain ⟨parent, hb, hparent⟩ := hheld.get hi hi'
  rw [List.get_eq_getElem, List.get_eq_getElem, hx] at hb
  rw [List.get_eq_getElem, hx] at hparent
  obtain ⟨last, hlast, hlastHolder⟩ := isLast_heldAll_nest hholder
  refine ⟨last, parent, ?_, hlast.congr fun j => encloses_statementsOf_iff, ?_, ?_⟩
  · rw [blocks_ofSource, ← hb]
    exact List.getElem?_eq_getElem hi'
  · cases last with
    | none =>
        obtain rfl : holder = none := hlastHolder
        cases hparent
        rfl
    | some j =>
        obtain ⟨-, outer, houter, -⟩ := hlast.1
        obtain rfl : holder = some outer := hlastHolder.trans houter
        cases hparent with
        | some h => exact (getElem?_of_block_eq houter h.1 h.2).symm
  · intro c hc
    cases hparent with
    | none => cases hc
    | some h =>
        cases hc
        exact h.1

/-- A block of a converted source stands where the indentation of its line says. It is the block of line
    `i` and stands right inside `parent`, as it says itself; that is the block of the last line that
    encloses its line, and none if no line does. If its line defines a function, it is a method exactly
    inside a class. -/
structure NestedBy (source : String) (i : Nat) (line : List Char) (b : Block) (parent : Option Block) :
    Prop where
  block : (ofSource source).forest.blocks[i]? = some b
  records : b.Records line
  held : (ofSource source).forest.HeldBy b parent
  named : b.parent = parent.map Block.id
  enclosed : ∃ last, IsLast (LineEncloses source) i last ∧
    parent = last.bind fun j => (ofSource source).forest.blocks[j]?
  method : (definitionRule.reading? line).isSome = true →
    (b.kind = .method ↔ parent.map Block.kind = some .class) ∧
      (b.kind = .function ↔ parent.map Block.kind ≠ some .class)

/-- **Indentation decides what holds what**, for every line of every source. -/
theorem nesting_of_indentation {source : String} {i width : Nat} {line : List Char}
    (hline : (outline source.toList)[i]? = some (width, line)) :
    ∃ b parent, NestedBy source i line b parent := by
  rw [outline, ← map_outline_linesFrom 1 1, List.getElem?_map] at hline
  obtain ⟨l, hl, hpair⟩ := Option.map_eq_some_iff.mp hline
  obtain ⟨-, rfl⟩ := Prod.mk.inj hpair
  have hs : (statementsOf source)[i]? = some (Statement.ofLine l) := by
    rw [statementsOf, List.getElem?_map]
    exact congrArg (Option.map Statement.ofLine) hl
  obtain ⟨last, parent, hb, hlast, hparent, hmem⟩ := exists_parent_of_statement hs
  have hvalid : (ofSource source).forest.Valid := (ofSource_complete source).valid
  exact ⟨(Statement.ofLine l).block parent, parent,
    { block := hb
      records := records_block l parent
      held := Forest.heldBy_of_parent hvalid (List.mem_of_getElem? hb) hmem (parent_block _)
      named := parent_block _
      enclosed := ⟨last, hlast, hparent⟩
      method := fun hdefinition => kind_block_of_definition hdefinition parent }⟩

/-- A class whose method holds a line that is indented less than the method's first one, and a line that
    is indented under an assignment. -/
def unevenClass : String :=
  "class A:\n\n    def f(self):\n        x = 1\n      y = 2\n  z = 3\n      def g():\n"

/-- The second line of the method is still inside it. An assignment holds nothing, so the second definition
    is held by the class, and is a method too. -/
theorem nesting_of_indentation_unevenClass :
    (outline unevenClass.toList)[5]? = some (6, "def g():".toList) ∧
    (definitionRule.reading? "def g():".toList).isSome = true ∧
    ((ofSource unevenClass).forest.blocks.map fun b => (b.id, b.parent))
      = [("class-1", none), ("method-2", some "class-1"), ("variable-3", some "method-2"),
        ("variable-4", some "method-2"), ("variable-5", some "class-1"), ("method-6", some "class-1")] ∧
    ∃ b parent, NestedBy unevenClass 5 "def g():".toList b parent := by
  have hline : (outline unevenClass.toList)[5]? = some (6, "def g():".toList) := by decide +kernel
  exact ⟨hline, by decide +kernel, by decide +kernel, nesting_of_indentation hline⟩

end Conversion

end Blockwork
