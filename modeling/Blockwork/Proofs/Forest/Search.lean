import Blockwork.Proofs.Edit.Numbering

/-!
# `Blockwork.Proofs.Forest.Search`: the search for a new id ends

A new id is found by trying: a candidate is made, the counter moves on, and if a block has the candidate
already the next one is made. Nothing in this loop bounds the rounds, and the counter comes back to one
after the largest serial. `Search` is the loop as it stands, one constructor for each way a round can go,
with the number of candidates that were made. What `allocate` computes with a bound is what the loop
arrives at without one.

## Contents
- `Forest.candidate`, `Forest.counted` and `Forest.Search`, with `Search.deterministic`.
- `Forest.search_freshSerial`: a bounded search that ends at a free id is the loop.
- `Forest.Allocated`, what is asked of a new id, with `allocated_allocate`.
- `Forest.search_ends`.
-/

namespace Blockwork

/-- Where a counter that is not zero can stand. -/
theorem Serial.toNat_bounds {s : UInt64} (hs : s ≠ 0) : 1 ≤ s.toNat ∧ s.toNat ≤ 2 ^ 64 - 1 := by
  have hlt : s.toNat < 2 ^ 64 := s.toNat_lt
  have hpos : s.toNat ≠ 0 := fun h => hs (UInt64.toNat_inj.mp h)
  omega

namespace Forest

open Serial (idOf toNat_bounds)

/-! ## The loop -/

/-- The id that is tried next. -/
def candidate (f : Forest) (name : String) : BlockId :=
  idOf name f.nextSerial

/-- The forest once a candidate was made. -/
def counted (f : Forest) : Forest :=
  { f with nextSerial := Serial.nextSerial f.nextSerial }

/-- From `f` the loop makes `n` candidates, the last of which is `id`, and leaves `g`. -/
inductive Search (name : String) : Forest → Nat → BlockId → Forest → Prop where
  | free {f : Forest} (free : f.contains (f.candidate name) = false) :
      Search name f 1 (f.candidate name) f.counted
  | taken {f g : Forest} {n : Nat} {id : BlockId} (taken : f.contains (f.candidate name) = true)
      (later : Search name f.counted n id g) : Search name f (n + 1) id g

variable {f g : Forest} {name : String}

/-- The loop can go one way only. -/
theorem Search.deterministic {m n : Nat} {id id' : BlockId} {g' : Forest} (h : Search name f m id g)
    (h' : Search name f n id' g') : m = n ∧ id = id' ∧ g = g' := by
  induction h generalizing n with
  | free hfree =>
      cases h' with
      | free => exact ⟨rfl, rfl, rfl⟩
      | taken htaken => exact absurd htaken (by simp [hfree])
  | taken htaken _ ih =>
      cases h' with
      | free hfree => exact absurd htaken (by simp [hfree])
      | taken _ later =>
          obtain ⟨rfl, rfl, rfl⟩ := ih later
          exact ⟨rfl, rfl, rfl⟩

/-- Taken ids are the same whatever the counter is. -/
theorem freshSerial_counted (tries : Nat) (s : UInt64) :
    f.counted.freshSerial name tries s = f.freshSerial name tries s := by
  induction tries generalizing s with
  | zero => rfl
  | succ tries ih =>
      rw [freshSerial, freshSerial, ih]
      rfl

/-- **A bounded search that ends at a free id is the loop**, and makes at most one candidate more than
    the bound. -/
theorem search_freshSerial {tries : Nat}
    (h : idOf name (f.freshSerial name tries f.nextSerial) ∉ f.ids) :
    ∃ n ≤ tries + 1, Search name f n (idOf name (f.freshSerial name tries f.nextSerial))
      { f with nextSerial := Serial.nextSerial (f.freshSerial name tries f.nextSerial) } := by
  -- The counter differs from round to round, the blocks do not.
  induction tries generalizing f with
  | zero =>
      rw [← contains_iff, Bool.not_eq_true] at h
      exact ⟨1, Nat.le_refl 1, .free h⟩
  | succ tries ih =>
      rw [freshSerial] at h ⊢
      by_cases htaken : f.contains (idOf name f.nextSerial) = true
      · rw [if_pos htaken] at h ⊢
        have hlater := ih (f := f.counted)
        rw [freshSerial_counted] at hlater
        obtain ⟨n, hn, hsearch⟩ := hlater h
        exact ⟨n + 1, Nat.succ_le_succ hn, .taken htaken hsearch⟩
      · rw [if_neg htaken] at h ⊢
        rw [Bool.not_eq_true] at htaken
        exact ⟨1, Nat.le_add_left 1 _, .free htaken⟩

/-! ## New ids -/

theorem freshSerial_ne_zero {tries : Nat} {s : UInt64} (hs : s ≠ 0) : f.freshSerial name tries s ≠ 0 := by
  induction tries generalizing s with
  | zero => exact hs
  | succ tries ih =>
      rw [freshSerial]
      split
      · exact ih Serial.nextSerial_ne_zero
      · exact hs

/-- What is asked of a new id: it is made of the name and a serial, no block has it, and nothing but the
    counter has changed, which still stands at a serial. -/
structure Allocated (f : Forest) (name : String) (id : BlockId) (g : Forest) : Prop where
  made : ∃ s : Nat, 1 ≤ s ∧ s ≤ 2 ^ 64 - 1 ∧ id = name ++ "-" ++ toString s
  new : id ∉ f.ids
  roots : g.roots = f.roots
  counter : 1 ≤ g.nextSerial.toNat ∧ g.nextSerial.toNat ≤ 2 ^ 64 - 1

theorem allocated_allocate (name : String) (hserial : f.nextSerial ≠ 0) (hsize : f.size < 2 ^ 64 - 1) :
    Allocated f name (f.allocate name).1 (f.allocate name).2 where
  made := by
    have hfresh : f.freshSerial name f.size f.nextSerial ≠ 0 := freshSerial_ne_zero hserial
    obtain ⟨hpos, hle⟩ := toNat_bounds hfresh
    exact ⟨_, hpos, hle, rfl⟩
  new := allocate_notMem name hserial hsize
  roots := rfl
  counter := toNat_bounds Serial.nextSerial_ne_zero

/-- **The search for a new id ends**, for every forest with fewer blocks than there are serials, every
    counter that stands at a serial and every name. It makes at most one candidate more than there are
    blocks, and what it arrives at is what `allocate` answers, a new id. Loading leaves the counter at a
    serial, the largest one if a block has that. -/
theorem search_ends :
    (∀ (f : Forest) (name : String), 1 ≤ f.nextSerial.toNat → f.size < 2 ^ 64 - 1 →
      (∃ n ≤ f.size + 1, Search name f n (f.allocate name).1 (f.allocate name).2) ∧
      (∀ n id g, Search name f n id g → n ≤ f.size + 1 ∧ (id, g) = f.allocate name) ∧
      Allocated f name (f.allocate name).1 (f.allocate name).2) ∧
    (∀ roots : List Tree,
      (ofTrees roots).nextSerial.toNat = min ((ofTrees roots).topSerial + 1) (2 ^ 64 - 1) ∧
      1 ≤ (ofTrees roots).nextSerial.toNat ∧ (ofTrees roots).nextSerial.toNat ≤ 2 ^ 64 - 1) := by
  constructor
  · intro f name hcounter hsize
    have hserial : f.nextSerial ≠ 0 := by
      rintro hzero
      rw [hzero] at hcounter
      exact absurd hcounter (by decide)
    have hnew := allocated_allocate name hserial hsize
    obtain ⟨n, hn, hsearch⟩ := search_freshSerial (idOf_freshSerial_notMem name hserial hsize)
    refine ⟨⟨n, hn, hsearch⟩, fun n' id g h => ?_, hnew⟩
    obtain ⟨rfl, rfl, rfl⟩ := h.deterministic hsearch
    exact ⟨hn, rfl⟩
  · intro roots
    exact ⟨toNat_nextSerial_ofTrees roots, toNat_bounds (ofTrees_nextSerial_ne_zero roots)⟩

/-- Two comments, one with the largest serial and one with the smallest. -/
def firstAndLast : List Tree :=
  [.node (.fresh "comment-18446744073709551615" Catalog.comment .origin) [],
    .node (.fresh "comment-1" Catalog.comment .origin) []]

/-- Loaded, they leave the counter at the largest serial. Both are in the way of the next block, which gets
    the third candidate. -/
theorem search_ends_firstAndLast :
    (ofTrees firstAndLast).nextSerial.toNat = 2 ^ 64 - 1 ∧
    1 ≤ (ofTrees firstAndLast).nextSerial.toNat ∧ (ofTrees firstAndLast).size < 2 ^ 64 - 1 ∧
    (ofTrees firstAndLast).size + 1 = 3 ∧
    (∃ n ≤ 3, Search "comment" (ofTrees firstAndLast) n ((ofTrees firstAndLast).allocate "comment").1
      ((ofTrees firstAndLast).allocate "comment").2) ∧
    Allocated (ofTrees firstAndLast) "comment" ((ofTrees firstAndLast).allocate "comment").1
      ((ofTrees firstAndLast).allocate "comment").2 ∧
    ((ofTrees firstAndLast).allocate "comment").1 = "comment-2" ∧
    ((ofTrees firstAndLast).allocate "comment").2.nextSerial = 3 := by
  obtain ⟨hends, hloaded⟩ := search_ends
  obtain ⟨-, hcounter, -⟩ := hloaded firstAndLast
  have hsize : (ofTrees firstAndLast).size < 2 ^ 64 - 1 := by decide
  obtain ⟨hsearch, -, hnew⟩ := hends (ofTrees firstAndLast) "comment" hcounter hsize
  exact ⟨by decide +kernel, hcounter, hsize, by decide, hsearch, hnew, by decide +kernel, by decide +kernel⟩

end Forest

end Blockwork
