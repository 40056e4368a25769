import Blockwork.Value

/-!
# `Blockwork.Settings`: the parameter values of a block

A block's values are a finite map from names to values. It is kept as a list of entries in strictly
increasing order of the name, which is also the order in which it is saved, so two maps with the
same values are equal.

## Contents
- `insertEntry` and `lookupEntry` on entry lists, with `insertEntry_sorted`.
- `Settings` with `get?`, `contains`, `insert`, `override`, `ofList`.
- `get?_insert`, the map law.
- `same`, equality up to numeric equality of numbers.
-/

namespace Blockwork

/-! ## Sorted entry lists -/

/-- `entries` with `name` set to `value`, at the place that keeps names increasing. -/
def insertEntry (name : String) (value : Value) : List (String × Value) → List (String × Value)
  | [] => [(name, value)]
  | (n, v) :: rest =>
    if name < n then (name, value) :: (n, v) :: rest
    else if name = n then (name, value) :: rest
    else (n, v) :: insertEntry name value rest

theorem mem_insertEntry {name : String} {value : Value} {entries : List (String × Value)}
    {e : String × Value} (h : e ∈ insertEntry name value entries) :
    e = (name, value) ∨ e ∈ entries := by
  induction entries with
  | nil => simpa [insertEntry] using h
  | cons head rest ih =>
    simp only [insertEntry] at h
    split at h
    · simpa using h
    · split at h
      · rcases List.mem_cons.mp h with h | h
        · exact .inl h
        · exact .inr (List.mem_cons_of_mem _ h)
      · rcases List.mem_cons.mp h with h | h
        · exact .inr (h ▸ List.mem_cons_self)
        · exact (ih h).imp id (List.mem_cons_of_mem _)

theorem insertEntry_sorted (name : String) (value : Value) {entries : List (String × Value)}
    (h : entries.Pairwise (·.1 < ·.1)) : (insertEntry name value entries).Pairwise (·.1 < ·.1) := by
  induction entries with
  | nil => simp [insertEntry]
  | cons head rest ih =>
    have hhead := List.pairwise_cons.mp h
    simp only [insertEntry]
    split
    · rename_i hlt
      refine List.pairwise_cons.mpr ⟨fun e he => ?_, h⟩
      rcases List.mem_cons.mp he with rfl | he
      · exact hlt
      · exact String.lt_trans hlt (hhead.1 e he)
    · split
      · rename_i heq
        exact List.pairwise_cons.mpr ⟨fun e he => heq ▸ hhead.1 e he, hhead.2⟩
      · rename_i hlt hne
        have hgt : head.1 < name := by
          refine Decidable.byContradiction fun hn => hne ?_
          exact String.le_antisymm (String.not_lt.mp hn) (String.not_lt.mp hlt)
        refine List.pairwise_cons.mpr ⟨fun e he => ?_, ih hhead.2⟩
        rcases mem_insertEntry he with rfl | he
        · exact hgt
        · exact hhead.1 e he

/-- The value of `name` among `entries`. -/
def lookupEntry (name : String) : List (String × Value) → Option Value
  | [] => none
  | (n, v) :: rest => if n = name then some v else lookupEntry name rest

theorem lookupEntry_insertEntry (name other : String) (value : Value)
    (entries : List (String × Value)) :
    lookupEntry other (insertEntry name value entries) =
      if name = other then some value else lookupEntry other entries := by
  induction entries with
  | nil => rfl
  | cons head rest ih =>
    simp only [insertEntry]
    split
    · rfl
    · split <;> grind [lookupEntry]

/-! ## The map -/

/-- Parameter values by name. -/
structure Settings where
  /-- The entries, names strictly increasing. -/
  entries : List (String × Value)
  sorted : entries.Pairwise (·.1 < ·.1)
  deriving DecidableEq

namespace Settings

/-- No values. -/
def empty : Settings :=
  ⟨[], List.Pairwise.nil⟩

instance : Inhabited Settings := ⟨empty⟩

/-- The value of `name`. -/
def get? (s : Settings) (name : String) : Option Value :=
  lookupEntry name s.entries

/-- Whether `name` has a value. -/
def contains (s : Settings) (name : String) : Bool :=
  (s.get? name).isSome

/-- `s` with `name` set to `value`. -/
def insert (s : Settings) (name : String) (value : Value) : Settings :=
  ⟨insertEntry name value s.entries, insertEntry_sorted name value s.sorted⟩

/-- `s` with every given entry set, later ones winning. -/
def override (s : Settings) (entries : List (String × Value)) : Settings :=
  entries.foldl (fun t e => t.insert e.1 e.2) s

/-- The map with the given entries, later ones winning. -/
def ofList (entries : List (String × Value)) : Settings :=
  empty.override entries

/-- A value is what was set last. -/
@[simp] theorem get?_insert (s : Settings) (name other : String) (value : Value) :
    (s.insert name value).get? other = if name = other then some value else s.get? other :=
  lookupEntry_insertEntry name other value s.entries

/-- Whether the maps have the same names with values that are `Value.same`. -/
def same (s t : Settings) : Bool :=
  s.entries.length == t.entries.length &&
    (s.entries.zip t.entries).all fun (a, b) => a.1 == b.1 && a.2.same b.2

end Settings

end Blockwork
