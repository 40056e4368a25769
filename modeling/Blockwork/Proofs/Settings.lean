import Blockwork.Settings
import Mathlib.Data.List.Sort

/-!
# `Blockwork.Proofs.Settings`: maps are known by their values

Entries stand in strictly increasing order of their names, so a name has one entry at most and there is
one order in which they can stand. Two maps that give every name the same value are therefore equal,
and setting all entries of one map in another is a question about one name at a time.

## Contents
- `Settings.mem_entries_iff` and `Settings.eq_of_get?_eq`.
- `Settings.get?_override_filter` and `Settings.get?_override_entries`: what is set afterwards counts first.
-/

namespace Blockwork

/-- In entries with increasing names a name has its value from its only entry. -/
theorem lookupEntry_eq_some_iff {entries : List (String × Value)}
    (h : entries.Pairwise (·.1 < ·.1)) {name : String} {value : Value} :
    lookupEntry name entries = some value ↔ (name, value) ∈ entries := by
  induction entries with
  | nil => simp [lookupEntry]
  | cons e entries ih =>
      obtain ⟨n, v⟩ := e
      obtain ⟨hlater, hentries⟩ := List.pairwise_cons.mp h
      rw [lookupEntry, List.mem_cons, Prod.mk.injEq]
      by_cases hn : n = name
      · subst hn
        have hnot : (n, value) ∉ entries := fun hmem => String.lt_irrefl n (hlater (n, value) hmem)
        rw [if_pos rfl]
        simp [hnot, eq_comm]
      · rw [if_neg hn, ih hentries]
        simp [Ne.symm hn]

namespace Settings

theorem mem_entries_iff {s : Settings} {name : String} {value : Value} :
    (name, value) ∈ s.entries ↔ s.get? name = some value :=
  (lookupEntry_eq_some_iff s.sorted).symm

theorem eq_of_entries_eq {s t : Settings} (h : s.entries = t.entries) : s = t := by
  cases s
  cases t
  cases h
  rfl

/-- **Maps with the same values are equal.** -/
theorem eq_of_get?_eq {s t : Settings} (h : ∀ name, s.get? name = t.get? name) : s = t := by
  have hirrefl : Std.Irrefl fun e e' : String × Value => e.1 < e'.1 := ⟨fun _ => String.lt_irrefl _⟩
  refine eq_of_entries_eq (s.sorted.eq_of_mem_iff t.sorted fun e => ?_)
  rw [mem_entries_iff, mem_entries_iff, h]

/-- **What is set afterwards counts first**, if its name is among those that are set. -/
theorem get?_override_filter (s t : Settings) (p : String → Bool) (name : String) :
    (s.override (t.entries.filter fun e => p e.1)).get? name =
      if p name then (t.get? name).or (s.get? name) else s.get? name := by
  obtain ⟨entries, hsorted⟩ := t
  show _ = if p name then (lookupEntry name entries).or (s.get? name) else s.get? name
  dsimp only
  induction entries generalizing s with
  | nil => simp [override, lookupEntry]
  | cons e entries ih =>
      obtain ⟨n, v⟩ := e
      obtain ⟨hlater, hentries⟩ := List.pairwise_cons.mp hsorted
      have habsent : lookupEntry n entries = none := by
        rw [Option.eq_none_iff_forall_ne_some]
        intro value hvalue
        exact String.lt_irrefl n (hlater (n, value) ((lookupEntry_eq_some_iff hentries).mp hvalue))
      rw [lookupEntry, List.filter_cons]
      by_cases hp : p n = true
      · rw [if_pos hp]
        have hcons : s.override ((n, v) :: entries.filter fun e => p e.1)
            = (s.insert n v).override (entries.filter fun e => p e.1) := rfl
        rw [hcons, ih _ hentries, get?_insert]
        by_cases hn : n = name
        · subst hn
          simp [hp, habsent]
        · simp [hn]
      · rw [if_neg hp, ih _ hentries]
        by_cases hn : n = name
        · subst hn
          simp [hp]
        · simp [hn]

theorem get?_override_entries (s t : Settings) (name : String) :
    (s.override t.entries).get? name = (t.get? name).or (s.get? name) := by
  have hall := s.get?_override_filter t (fun _ => true) name
  rwa [List.filter_true, if_pos rfl] at hall

end Settings

end Blockwork
