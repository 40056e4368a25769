import Blockwork.Proofs.Json.Pretty
import Blockwork.Saved.Scalar

/-!
# `Blockwork.Proofs.Saved.Loaded`: what loading starts from

A text that was written is read to its end, and the tree that is then looked at differs from the one
that was written in two ways: a number is whatever its digits are read as, and the keys of an object
are in order. `Json.loaded` is that tree. What loading makes of each kind of value is said here once,
so the decoders need not know about characters any more.

Digits that are not read back to the number they were written for are the one thing that is not
settled here: `Binary64.ReadsBack` says of a number that they are.

## Contents
- `bind_eq_ok`, `map_eq_ok`, `mapError_eq_ok`: when decoding in steps succeeds.
- `Json.loaded`, with `loaded_array`, `loaded_record` and `loaded_record_of_sorted`.
- `Binary64.ReadsBack`, and `decodeNumber_loaded`: a number is taken over if it is finite.
- `ofWholeText_pretty`: a written text is refused only for its nesting.
-/

namespace Blockwork

namespace Saved

/-! ## Decoding in steps -/

section Steps

variable {ε α β : Type} {x : Except ε α} {b : β}

theorem bind_eq_ok {f : α → Except ε β} : (x >>= f) = .ok b ↔ ∃ a, x = .ok a ∧ f a = .ok b := by
  cases x <;> simp [bind, Except.bind]

theorem map_eq_ok {f : α → β} : x.map f = .ok b ↔ ∃ a, x = .ok a ∧ f a = b := by
  cases x <;> simp [Except.map]

theorem mapError_eq_ok {δ : Type} {f : ε → δ} {a : α} : x.mapError f = .ok a ↔ x = .ok a := by
  cases x <;> simp [Except.mapError]

end Steps

end Saved

namespace Json

/-! ## The tree of a written text -/

theorem rereadAll_eq_map (items : List Json) : rereadAll items = items.map reread := by
  induction items with
  | nil => rw [rereadAll, List.map_nil]
  | cons j items ih => rw [rereadAll, ih, List.map_cons]

theorem rereadMembers_eq_map (members : List (Option String × Json)) :
    rereadMembers members = members.map fun m => (m.1, reread m.2) := by
  induction members with
  | nil => rw [rereadMembers, List.map_nil]
  | cons m members ih => rw [rereadMembers, ih, List.map_cons]

theorem canonicalAll_eq_map (items : List Json) : canonicalAll items = items.map canonical := by
  induction items with
  | nil => rw [canonicalAll, List.map_nil]
  | cons j items ih => rw [canonicalAll, ih, List.map_cons]

theorem canonicalMembers_eq_map (members : List (Option String × Json)) :
    canonicalMembers members = members.map fun m => (m.1, canonical m.2) := by
  induction members with
  | nil => rw [canonicalMembers, List.map_nil]
  | cons m members ih => rw [canonicalMembers, ih, List.map_cons]

/-- The tree from which loading starts after `j` was written. -/
def loaded (j : Json) : Json :=
  (reread j).canonical

@[simp] theorem loaded_bool (b : Bool) : loaded (bool b) = bool b := by
  rw [loaded, reread, canonical] <;> simp

@[simp] theorem loaded_text (s : String) : loaded (text s) = text s := by
  rw [loaded, reread, canonical] <;> simp

theorem loaded_natural {n : Nat} (h : n < UInt64.size) :
    loaded (number (.natural n)) = number (.natural n) := by
  rw [loaded, reread_natural h, canonical] <;> simp

@[simp] theorem loaded_array (items : List Json) : loaded (array items) = array (items.map loaded) := by
  rw [loaded, reread, canonical, rereadAll_eq_map, canonicalAll_eq_map, List.map_map]
  rfl

/-- The members of a record, each loaded, are put in the order of their keys. -/
theorem loaded_record (members : List (String × Json)) :
    loaded (record members)
      = object ((members.map fun m => (some m.1, loaded m.2)).foldl
          (fun ms m => insertMember m.1 m.2 ms) []) := by
  rw [loaded, record, reread, canonical, rereadMembers_eq_map, canonicalMembers_eq_map,
    List.map_map, List.map_map]
  rfl

/-- A key above all others goes to the end. -/
theorem insertMember_of_forall_lt {key : Option String} {value : Json}
    {members : List (Option String × Json)} (h : ∀ m ∈ members, m.1.getD "" < key.getD "") :
    insertMember key value members = members ++ [(key, value)] := by
  induction members with
  | nil => rfl
  | cons m members ih =>
      obtain ⟨hm, hmembers⟩ := List.forall_mem_cons.mp h
      obtain ⟨k, v⟩ := m
      have hne : key ≠ k := by
        rintro rfl
        exact String.lt_irrefl _ hm
      rw [insertMember, if_neg (String.lt_asymm hm), if_neg hne, ih hmembers, List.cons_append]

theorem foldl_insertMember_of_sorted {members done : List (Option String × Json)}
    (h : (done ++ members).Pairwise fun m n => m.1.getD "" < n.1.getD "") :
    members.foldl (fun ms m => insertMember m.1 m.2 ms) done = done ++ members := by
  induction members generalizing done with
  | nil => rw [List.foldl_nil, List.append_nil]
  | cons m members ih =>
      -- What was put down lies below everything that is still to come.
      have hlast : ∀ n ∈ done, n.1.getD "" < m.1.getD "" := fun n hn =>
        (List.pairwise_append.mp h).2.2 n hn m List.mem_cons_self
      rw [List.append_cons] at h ⊢
      rw [List.foldl_cons, insertMember_of_forall_lt hlast, ih h]

/-- A record whose keys are in order keeps its members where they are. -/
theorem loaded_record_of_sorted {members : List (String × Json)}
    (h : members.Pairwise fun m n => m.1 < n.1) :
    loaded (record members) = record (members.map fun m => (m.1, loaded m.2)) := by
  have hsorted : (([] : List (Option String × Json)) ++
      members.map fun m => (some m.1, loaded m.2)).Pairwise fun m n => m.1.getD "" < n.1.getD "" := by
    rw [List.nil_append, List.pairwise_map]
    exact h
  rw [loaded_record, foldl_insertMember_of_sorted hsorted, List.nil_append, record, List.map_map]
  rfl

/-! ## Plain trees and their nesting -/

theorem Plain.record {members : List (String × Json)} (h : ∀ m ∈ members, Plain m.2) :
    Plain (record members) := by
  refine .object (fun m hm => ?_) (fun m hm => ?_)
  · obtain ⟨n, -, rfl⟩ := List.mem_map.mp hm
    rfl
  · obtain ⟨n, hn, rfl⟩ := List.mem_map.mp hm
    exact h n hn

theorem reread_record (members : List (String × Json)) :
    reread (record members) = record (members.map fun m => (m.1, reread m.2)) := by
  rw [record, reread, rereadMembers_eq_map, record, List.map_map, List.map_map]
  rfl

theorem readableAll_eq_all (depth : Nat) (items : List Json) :
    readableAll depth items = items.all (readable depth) := by
  induction items with
  | nil => rw [readableAll, List.all_nil]
  | cons j items ih => rw [readableAll, ih, List.all_cons]

theorem readable_array (depth : Nat) (items : List Json) :
    (array items).readable depth = true ↔ 0 < depth ∧ ∀ j ∈ items, j.readable (depth - 1) = true := by
  rw [readable, readableAll_eq_all, Bool.and_eq_true, decide_eq_true_iff, List.all_eq_true]

theorem readable_record (depth : Nat) (members : List (String × Json)) :
    (record members).readable depth = true ↔
      0 < depth ∧ ∀ m ∈ members, m.2.readable (depth - 1) = true := by
  have hmembers : readableMembers (depth - 1) (members.map fun m => (some m.1, m.2))
      = members.all fun m => m.2.readable (depth - 1) := by
    induction members with
    | nil => rw [List.map_nil, readableMembers, List.all_nil]
    | cons m members ih =>
        rw [List.map_cons, readableMembers, ih, List.all_cons, Option.isSome_some, Bool.true_and]
  have hrecord : (record members).readable depth
      = (decide (0 < depth) && readableMembers (depth - 1) (members.map fun m => (some m.1, m.2))) := by
    rw [record, readable]
  rw [hrecord, hmembers, Bool.and_eq_true, decide_eq_true_iff, List.all_eq_true]

end Json

/-! ## Numbers -/

/-- The digits that are saved for a number are read back to it. -/
def Binary64.ReadsBack (x : Binary64) : Prop :=
  Saved.decodeStream Saved.decodeNumber (Layout.saved.write x) = .ok x

instance (x : Binary64) : Decidable x.ReadsBack :=
  decidable_of_iff ((Saved.decodeStream Saved.decodeNumber (Layout.saved.write x)).toOption = some x)
    (by
      rw [Binary64.ReadsBack]
      cases Saved.decodeStream Saved.decodeNumber (Layout.saved.write x) <;> simp [Except.toOption])

example : Binary64.ReadsBack (-7) ∧ Binary64.ReadsBack (2 * 500000000000000000000) := by decide +kernel

namespace Saved

/-- A number that is not finite is loaded as null. -/
theorem reread_of_not_isFinite {x : Binary64} (h : ¬x.isFinite = true) :
    Json.reread (.number (.real x)) = .null := by
  have hwritten : (Numeral.real x).write = String.ofList ['n', 'u', 'l', 'l'] := by
    rw [← Json.toList_write_of_not_isFinite h, String.ofList_toList]
  rw [Json.reread, hwritten]
  rfl

/-- A number whose digits are read back is loaded as some number that denotes it. -/
theorem exists_reread_of_readsBack {x : Binary64} (h : x.ReadsBack) :
    ∃ n, Json.reread (.number (.real x)) = .number n ∧ n.toBinary64 = x := by
  have hdecode : decodeNumber (Json.reread (.number (.real x))) = .ok x := by
    have hread : Json.Document.read (Layout.saved.write x)
        = ⟨Json.reread (.number (.real x)), true⟩ := Json.read_writeNumber x
    rw [Binary64.ReadsBack, decodeStream, hread, bind_eq_ok] at h
    obtain ⟨y, hy, hxy⟩ := h
    cases hxy
    exact hy
  obtain ⟨v, hv⟩ : ∃ v, Json.reread (.number (.real x)) = v := ⟨_, rfl⟩
  rw [hv] at hdecode ⊢
  cases v with
  | number n => exact ⟨n, rfl, Except.ok.inj hdecode⟩
  | _ => cases hdecode

/-- What is saved of a number that is not finite has no digits. -/
theorem isFinite_of_readsBack {x : Binary64} (h : x.ReadsBack) : x.isFinite = true := by
  by_contra hfinite
  obtain ⟨n, hread, -⟩ := exists_reread_of_readsBack h
  rw [reread_of_not_isFinite hfinite] at hread
  cases hread

theorem loaded_of_not_isFinite {x : Binary64} (h : ¬x.isFinite = true) :
    Json.loaded (.number (.real x)) = .null := by
  rw [Json.loaded, reread_of_not_isFinite h, Json.canonical] <;> simp

theorem exists_loaded_of_readsBack {x : Binary64} (h : x.ReadsBack) :
    ∃ n, Json.loaded (.number (.real x)) = .number n ∧ n.toBinary64 = x := by
  obtain ⟨n, hread, hn⟩ := exists_reread_of_readsBack h
  refine ⟨n, ?_, hn⟩
  rw [Json.loaded, hread, Json.canonical] <;> simp

/-- A number is taken over if it is finite; null is no number. -/
theorem decodeNumber_loaded {x y : Binary64} (hx : x.isFinite = true → x.ReadsBack) :
    decodeNumber (Json.loaded (.number (.real x))) = .ok y ↔ x.isFinite = true ∧ y = x := by
  by_cases hfinite : x.isFinite = true
  · obtain ⟨n, hloaded, hn⟩ := exists_loaded_of_readsBack (hx hfinite)
    rw [hloaded, decodeNumber, hn, Except.ok.injEq]
    exact ⟨fun h => ⟨hfinite, h.symm⟩, fun h => h.2.symm⟩
  · rw [loaded_of_not_isFinite hfinite]
    exact ⟨fun h => (nomatch h), fun h => absurd h.1 hfinite⟩

/-- Whether finite or not, what is loaded for a number is complete and holds nothing. -/
theorem readable_reread_number {x : Binary64} (hx : x.isFinite = true → x.ReadsBack) (depth : Nat) :
    (Json.reread (.number (.real x))).readable depth = true := by
  by_cases hfinite : x.isFinite = true
  · obtain ⟨n, hread, -⟩ := exists_reread_of_readsBack (hx hfinite)
    rw [hread, Json.readable] <;> simp
  · rw [reread_of_not_isFinite hfinite, Json.readable] <;> simp

/-! ## Texts -/

/-- **A written text is refused as a text only for its nesting** or for digits that cannot be
    read. -/
theorem ofWholeText_pretty {j : Json} (hj : Json.Plain j) :
    ofWholeText j.pretty
      = if (Json.reread j).readable depthLimit then .ok j.loaded else .error .malformed := by
  rw [ofWholeText, Json.read_pretty hj, Bool.true_and]
  rfl

end Saved

end Blockwork
