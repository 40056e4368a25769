import Mathlib.Data.List.TakeWhile

/-!
# `Blockwork.Proofs.Source.Nesting`: what nesting by indentation makes

The rule that indentation follows, apart from how lines are read: an item that opens a suite holds the
items that follow it for as long as they are indented further. Nesting goes through the items from the
last to the first and puts each one before the suites made so far, where it takes in those that are
indented further. So every fact about nesting is one about putting an item before suites.

## Contents
- `Suite`, items with what they hold, and `Suite.preorderAll`; `Suite.siblingInduction`.
- `graft` and `nest`, with `preorderAll_nest`: nothing is lost and the order is kept.
- `graft_append`: what an item takes in.
- `Suite.Below`, and `nest_below`: who holds whom; `Suite.Owned`, and `nest_owned`: only items that open
  a suite hold others.
-/

namespace Blockwork.Source

/-! ## Suites -/

variable {α : Type} {indent : α → Nat} {opens : α → Bool}

/-- An item with the items it holds. -/
inductive Suite (α : Type) where
  | node (item : α) (body : List (Suite α))

namespace Suite

/-- The item at the root. -/
def item : Suite α → α
  | node a _ => a

mutual

/-- The items of a suite, an item before what it holds. -/
def preorder : Suite α → List α
  | node a body => a :: preorderAll body

/-- The items of a list of suites. -/
def preorderAll : List (Suite α) → List α
  | [] => []
  | s :: ss => preorder s ++ preorderAll ss

end

/-- What holds of no suites, and of an item and the suites after it if it holds of what the item
    holds and of those suites, holds of every list of suites. -/
theorem siblingInduction {motive : List (Suite α) → Prop} (nil : motive [])
    (cons : ∀ a body ss, motive body → motive ss → motive (node a body :: ss)) :
    ∀ ss, motive ss
  | [] => nil
  | node a body :: ss =>
      cons a body ss (siblingInduction nil cons body) (siblingInduction nil cons ss)

theorem preorderAll_cons (a : α) (body ss : List (Suite α)) :
    preorderAll (node a body :: ss) = a :: (preorderAll body ++ preorderAll ss) := by
  rw [preorderAll, preorder, List.cons_append]

theorem preorderAll_append (ss ts : List (Suite α)) :
    preorderAll (ss ++ ts) = preorderAll ss ++ preorderAll ts := by
  induction ss with
  | nil => simp [preorderAll]
  | cons s ss ih => simp [preorderAll, ih]

end Suite

/-! ## Nesting -/

/-- Puts an item before suites. If it opens a suite, it takes what follows as far as that is indented
    further; otherwise it holds nothing. -/
def graft (indent : α → Nat) (opens : α → Bool) (a : α) (following : List (Suite α)) :
    List (Suite α) :=
  if opens a then
    .node a (following.takeWhile fun s => indent a < indent s.item) ::
      following.dropWhile fun s => indent a < indent s.item
  else .node a [] :: following

/-- The suites that a list of items makes up. -/
def nest (indent : α → Nat) (opens : α → Bool) (items : List α) : List (Suite α) :=
  items.foldr (graft indent opens) []

/-- Nothing stands before an item that was put before suites. -/
theorem item_of_mem_head?_graft {a : α} {following : List (Suite α)} {s : Suite α}
    (h : s ∈ (graft indent opens a following).head?) : s.item = a := by
  unfold graft at h
  split at h <;> cases h <;> rfl

theorem preorderAll_graft (indent : α → Nat) (opens : α → Bool) (a : α)
    (following : List (Suite α)) :
    Suite.preorderAll (graft indent opens a following) = a :: Suite.preorderAll following := by
  unfold graft
  split
  · rw [Suite.preorderAll_cons, ← Suite.preorderAll_append, List.takeWhile_append_dropWhile]
  · rw [Suite.preorderAll_cons, Suite.preorderAll, List.nil_append]

/-- Nesting keeps every item and their order. -/
theorem preorderAll_nest (indent : α → Nat) (opens : α → Bool) (items : List α) :
    Suite.preorderAll (nest indent opens items) = items := by
  induction items with
  | nil => rw [nest, List.foldr_nil, Suite.preorderAll]
  | cons a items ih => rw [nest, List.foldr_cons, preorderAll_graft, ← nest, ih]

namespace Suite

/-! ## Who holds what -/

/-- Only items that open a suite hold others. -/
inductive Owned (opens : α → Bool) : List (Suite α) → Prop where
  | nil : Owned opens []
  | cons {a : α} {body ss : List (Suite α)} (ha : body ≠ [] → opens a = true)
      (hbody : Owned opens body) (hss : Owned opens ss) : Owned opens (node a body :: ss)

/-- Every item is related to the items that it holds right away. -/
inductive Below (R : α → α → Prop) : List (Suite α) → Prop where
  | nil : Below R []
  | cons {a : α} {body ss : List (Suite α)} (ha : ∀ s ∈ body, R a s.item) (hbody : Below R body)
      (hss : Below R ss) : Below R (node a body :: ss)

theorem below_append {R : α → α → Prop} {ss ts : List (Suite α)} :
    Below R (ss ++ ts) ↔ Below R ss ∧ Below R ts := by
  induction ss with
  | nil => exact ⟨fun h => ⟨.nil, h⟩, fun h => h.2⟩
  | cons s ss ih =>
      constructor
      · intro h
        cases h with
        | cons ha hbody hss => exact ⟨.cons ha hbody (ih.mp hss).1, (ih.mp hss).2⟩
      · rintro ⟨h, hts⟩
        cases h with
        | cons ha hbody hss => exact .cons ha hbody (ih.mpr ⟨hss, hts⟩)

theorem Below.owned {ss : List (Suite α)} (h : Below (fun a _ => opens a = true) ss) : Owned opens ss := by
  induction h with
  | nil => exact .nil
  | @cons a body ss ha _ _ ihBody ihSs =>
      refine .cons (fun hne => ?_) ihBody ihSs
      obtain ⟨s, hs⟩ := List.exists_mem_of_ne_nil body hne
      exact ha s hs

/-- What is inside some suites is indented further than a width if the suites are. -/
theorem Below.lt_of_mem {ss : List (Suite α)} (h : Below (fun a b => indent a < indent b) ss) {width : Nat}
    (hss : ∀ s ∈ ss, width < indent s.item) : ∀ a ∈ preorderAll ss, width < indent a := by
  induction h generalizing width with
  | nil => simp [preorderAll]
  | @cons a body ss ha _ _ ihBody ihSs =>
      obtain ⟨hwidth, hrest⟩ := List.forall_mem_cons.mp hss
      rw [preorderAll_cons, List.forall_mem_cons, List.forall_mem_append]
      exact ⟨hwidth, ihBody fun s hs => hwidth.trans (ha s hs), ihSs hrest⟩

end Suite

/-- An item that opens a suite takes in the suites that are indented further and no more. -/
theorem graft_append {a : α} {body following : List (Suite α)} (hopens : body ≠ [] → opens a = true)
    (hbody : ∀ s ∈ body, indent a < indent s.item)
    (hfollowing : ∀ s ∈ following.head?, indent s.item ≤ indent a) :
    graft indent opens a (body ++ following) = .node a body :: following := by
  have hbody' : ∀ s ∈ body, decide (indent a < indent s.item) = true :=
    fun s hs => decide_eq_true (hbody s hs)
  have hstop : following.takeWhile (fun s => indent a < indent s.item) = [] ∧
      following.dropWhile (fun s => indent a < indent s.item) = following := by
    cases following with
    | nil => exact ⟨rfl, rfl⟩
    | cons s ss =>
        have hs : ¬indent a < indent s.item := Nat.not_lt.mpr (hfollowing s rfl)
        exact ⟨List.takeWhile_cons_of_neg (by simpa using hs),
          List.dropWhile_cons_of_neg (by simpa using hs)⟩
  unfold graft
  -- An item that opens no suite takes in nothing, and then `body` is empty.
  by_cases ha : opens a = true
  · rw [if_pos ha, List.takeWhile_append_of_pos hbody', List.dropWhile_append_of_pos hbody', hstop.1,
      hstop.2, List.append_nil]
  · have hnil : body = [] := Classical.byContradiction fun hne => ha (hopens hne)
    rw [if_neg ha, hnil, List.nil_append]

/-- Putting an item before suites keeps what holds between items and what they hold, if it holds between
    an item that opens a suite and those indented further. -/
theorem graft_below {R : α → α → Prop} (hR : ∀ a b, opens a = true → indent a < indent b → R a b) (a : α)
    {following : List (Suite α)} (h : Suite.Below R following) :
    Suite.Below R (graft indent opens a following) := by
  unfold graft
  by_cases hopens : opens a = true
  · rw [if_pos hopens]
    have hparts := @List.takeWhile_append_dropWhile _ (fun s => indent a < indent s.item) following
    rw [← hparts, Suite.below_append] at h
    refine .cons (fun s hs => hR a s.item hopens ?_) h.1 h.2
    simpa using List.mem_takeWhile_imp hs
  · rw [if_neg hopens]
    exact .cons (by simp) .nil h

/-- **In what nesting makes, an item holds only if it opens a suite, and only what is indented further.** -/
theorem nest_below {R : α → α → Prop} (hR : ∀ a b, opens a = true → indent a < indent b → R a b)
    (items : List α) : Suite.Below R (nest indent opens items) := by
  induction items with
  | nil => exact .nil
  | cons a items ih => exact graft_below hR a ih

theorem nest_owned (items : List α) : Suite.Owned opens (nest indent opens items) :=
  (nest_below (fun _ _ hopens _ => hopens) items).owned

end Blockwork.Source
