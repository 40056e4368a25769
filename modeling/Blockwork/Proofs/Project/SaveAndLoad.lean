import Blockwork.Project
import Blockwork.Proofs.Forest.Valid
import Blockwork.Proofs.Saved.Forest
import Blockwork.Proofs.Time.RoundTrip

/-!
# `Blockwork.Proofs.Project.SaveAndLoad`: projects are loaded as they were saved

A project is saved whatever it holds, but it is not always loaded again: a number that is not finite
is saved as null, which is refused, and a text that is nested too deep is not read at all. These two
are the only obstacles, and a project that is loaded is the one that was saved, apart from the counter
for new ids, which continues after the largest serial in the forest.

## Contents
- `Project.reloaded`, the project as it is loaded.
- `Project.decode_loaded`, `Project.readable_reread`: the two obstacles, one by one.
- `Project.ofWholeText_toText`, `Project.parse_toText_iff`: what loading a saved project answers, for
  any project.
- `Project.ids_of_parse_toText`: the ids are loaded as they were in any case.
- `Project.save_and_load`: **a well-formed project is loaded as it was saved** exactly if all its
  numbers are finite and its blocks are nested at most 62 levels deep.
-/

namespace Blockwork

open Saved

namespace Project

/-- The project as it is loaded: defaults are filled in, and the counter for new ids stands after
    the largest serial present. -/
def reloaded (p : Project) : Project :=
  { p with forest := Forest.ofTrees p.forest.roots }

variable {p q : Project}

/-! ## Decoding -/

theorem loaded_encode (p : Project) :
    Json.loaded p.encode
      = .record
          [("blocks", .array ((Tree.encodeAll p.forest.roots).map Json.loaded)),
            ("createdAt", .text p.createdAt.write), ("description", .text p.description),
            ("name", .text p.name), ("updatedAt", .text p.updatedAt.write)] := by
  rw [encode, Json.loaded_record]
  simp only [Json.record, Forest.encode, Json.loaded_text, Json.loaded_array, List.map_cons,
    List.map_nil, List.foldl_cons, List.foldl_nil, Json.insertMember, Option.getD_some,
    Option.some.injEq, String.reduceLT, String.reduceEq, if_true, if_false]

theorem decodeTimestamp_write (t : Timestamp) : decodeTimestamp (.text t.write) = .ok t := by
  rw [decodeTimestamp, Timestamp.parse_write]

/-- The record of a project gives the project as soon as the moments are read and the blocks are
    taken over. -/
theorem decode_record (now : Timestamp) (name description : String) {created updated : Timestamp}
    {jcreated jupdated : Json} (hcreated : decodeTimestamp jcreated = .ok created)
    (hupdated : decodeTimestamp jupdated = .ok updated) (jblocks : Json) :
    decode now
        (.record
          [("blocks", jblocks), ("createdAt", jcreated), ("description", .text description),
            ("name", .text name), ("updatedAt", jupdated)])
      = (Forest.decode jblocks).map fun f => ⟨name, description, f, created, updated⟩ := by
  simp only [decode, decodeRecord, Json.record, List.map_cons, List.map_nil, decodeMembers,
    Draft.field, hcreated, hupdated, decodeText]
  cases Forest.decode jblocks <;> rfl

/-- The first obstacle: a number that is not finite. -/
theorem decode_loaded (hnumbers : ∀ x ∈ p.forest.numbers, x.isFinite = true → x.ReadsBack)
    (now : Timestamp) :
    decode now (Json.loaded p.encode) = .ok q ↔
      (∀ x ∈ p.forest.numbers, x.isFinite = true) ∧ q = p.reloaded := by
  have hblocks : ∀ us, Tree.decodeAll ((Tree.encodeAll p.forest.roots).map Json.loaded) = .ok us ↔
      (∀ x ∈ p.forest.numbers, x.isFinite = true) ∧ us = p.forest.roots := fun us => by
    rw [Forest.forall_mem_numbers] at hnumbers ⊢
    exact Tree.decodeAll_loaded hnumbers
  rw [loaded_encode, decode_record now p.name p.description (decodeTimestamp_write _)
    (decodeTimestamp_write _), map_eq_ok]
  simp only [Forest.decode, Tree.decodeList, map_eq_ok, hblocks]
  constructor
  · rintro ⟨f, ⟨us, ⟨hfinite, rfl⟩, rfl⟩, rfl⟩
    exact ⟨hfinite, rfl⟩
  · rintro ⟨hfinite, rfl⟩
    exact ⟨_, ⟨_, ⟨hfinite, rfl⟩, rfl⟩, rfl⟩

/-! ## Nesting -/

theorem plain_encode (p : Project) : Json.Plain p.encode := by
  refine .record ?_
  simp only [List.forall_mem_cons]
  exact ⟨.text _, .text _, .array (Tree.plain_encodeAll _), .text _, .text _,
    fun m hm => (nomatch hm)⟩

/-- The second obstacle: blocks below the sixty-second level. -/
theorem readable_reread (hnumbers : ∀ x ∈ p.forest.numbers, x.isFinite = true → x.ReadsBack) :
    (Json.reread p.encode).readable depthLimit = true ↔ Tree.heightAll p.forest.roots ≤ 62 := by
  have hblocks : (Json.reread p.forest.encode).readable 126 = true ↔
      Tree.heightAll p.forest.roots ≤ 62 := by
    rw [Forest.encode, Json.reread, Json.rereadAll_eq_map, Json.readable_array, List.forall_mem_map,
      Tree.readableAll_reread (Forest.forall_mem_numbers.mp hnumbers)]
    omega
  have htext : ∀ s, (Json.reread (.text s)).readable 126 = true := fun s => rfl
  rw [encode, Json.reread_record, Json.readable_record, List.forall_mem_map]
  simp only [List.forall_mem_cons, List.not_mem_nil, false_implies, implies_true, and_true, htext,
    true_and, hblocks, depthLimit, Nat.reduceSub, Nat.reduceLT]

/-! ## Loading what was saved -/

theorem ofWholeText_toText (hnumbers : ∀ x ∈ p.forest.numbers, x.isFinite = true → x.ReadsBack)
    {j : Json} :
    ofWholeText p.toText = .ok j ↔
      Tree.heightAll p.forest.roots ≤ 62 ∧ j = Json.loaded p.encode := by
  rw [toText, ofWholeText_pretty p.plain_encode, ← readable_reread hnumbers]
  by_cases hreadable : (Json.reread p.encode).readable depthLimit = true
  · rw [if_pos hreadable, Except.ok.injEq, and_iff_right hreadable, eq_comm]
  · rw [if_neg hreadable]
    exact ⟨fun h => (nomatch h), fun h => absurd h.1 hreadable⟩

/-- What loading a saved project answers. -/
theorem parse_toText_iff
    (hnumbers : ∀ x ∈ p.forest.numbers, x.isFinite = true → x.ReadsBack) (now : Timestamp) :
    parse now p.toText = .ok q ↔
      (∀ x ∈ p.forest.numbers, x.isFinite = true) ∧ Tree.heightAll p.forest.roots ≤ 62 ∧
        p.reloaded.forest.Valid ∧ q = p.reloaded := by
  have hdecode : ∀ r, (ofWholeText p.toText).bind (decode now) = .ok r ↔
      Tree.heightAll p.forest.roots ≤ 62 ∧ (∀ x ∈ p.forest.numbers, x.isFinite = true) ∧
        r = p.reloaded := by
    intro r
    rw [← decode_loaded hnumbers now]
    refine Iff.trans bind_eq_ok ?_
    simp only [ofWholeText_toText hnumbers]
    constructor
    · rintro ⟨j, ⟨hheight, rfl⟩, hj⟩
      exact ⟨hheight, hj⟩
    · rintro ⟨hheight, hj⟩
      exact ⟨_, ⟨hheight, rfl⟩, hj⟩
  -- Only then is the forest checked, with the defaults filled in.
  simp only [parse, bind_eq_ok, mapError_eq_ok, hdecode]
  constructor
  · rintro ⟨r, ⟨hheight, hfinite, rfl⟩, u, hvalid, hq⟩
    exact ⟨hfinite, hheight, hvalid, (Except.ok.inj hq).symm⟩
  · rintro ⟨hfinite, hheight, hvalid, rfl⟩
    exact ⟨_, ⟨hheight, hfinite, rfl⟩, (), hvalid, rfl⟩

/-- **A saved project is loaded with the ids that it had**, whatever becomes of its numbers. -/
theorem ids_of_parse_toText {now : Timestamp} (h : parse now p.toText = .ok q) :
    q.forest.ids = p.forest.ids := by
  simp only [parse, bind_eq_ok, mapError_eq_ok] at h
  obtain ⟨r, hr, u, -, hq⟩ := h
  cases hq
  obtain ⟨j, hj, hdecode⟩ := bind_eq_ok.mp hr
  rw [toText, ofWholeText_pretty p.plain_encode] at hj
  split at hj
  · cases hj
    rw [loaded_encode, decode_record now p.name p.description (decodeTimestamp_write _)
      (decodeTimestamp_write _), map_eq_ok] at hdecode
    obtain ⟨f, hf, rfl⟩ := hdecode
    simp only [Forest.decode, Tree.decodeList, map_eq_ok] at hf
    obtain ⟨us, hus, rfl⟩ := hf
    exact (Forest.ids_ofTrees us).trans (Tree.idsAll_of_decodeAll_loaded hus)
  · cases hj

/-- A project whose forest has all its values is loaded with the blocks that it had. -/
theorem roots_reloaded (h : p.forest.Filled) : p.reloaded.forest.roots = p.forest.roots :=
  Forest.roots_ofTrees h

/-- The check looks at the blocks alone. -/
theorem valid_reloaded (hvalid : p.forest.Valid) (hfilled : p.forest.Filled) :
    p.reloaded.forest.Valid := by
  rw [Forest.Valid, Forest.validate, roots_reloaded hfilled]
  exact hvalid

/-- **A well-formed project is loaded as it was saved** exactly if all its numbers are finite and its
    blocks are nested at most 62 levels deep; in every other case loading fails. What is saved of a
    finite number has to be read back to it; the moments of the project may be in any year. -/
theorem save_and_load (hvalid : p.forest.Valid) (hfilled : p.forest.Filled)
    (hnumbers : ∀ x ∈ p.forest.numbers, x.isFinite = true → x.ReadsBack) (now : Timestamp) :
    ((∃ q, parse now p.toText = .ok q) ↔
        (∀ x ∈ p.forest.numbers, x.isFinite = true) ∧ Tree.heightAll p.forest.roots ≤ 62) ∧
      ∀ q, parse now p.toText = .ok q →
        q.name = p.name ∧ q.description = p.description ∧ q.createdAt = p.createdAt ∧
          q.updatedAt = p.updatedAt ∧ q.forest.roots = p.forest.roots := by
  have hparse : ∀ q, parse now p.toText = .ok q ↔ _ :=
    fun q => parse_toText_iff hnumbers now
  constructor
  · constructor
    · rintro ⟨q, hq⟩
      obtain ⟨hfinite, hheight, -, -⟩ := (hparse q).mp hq
      exact ⟨hfinite, hheight⟩
    · rintro ⟨hfinite, hheight⟩
      exact ⟨p.reloaded, (hparse _).mpr ⟨hfinite, hheight, valid_reloaded hvalid hfilled, rfl⟩⟩
  · intro q hq
    obtain ⟨-, -, -, rfl⟩ := (hparse q).mp hq
    exact ⟨rfl, rfl, rfl, rfl, roots_reloaded hfilled⟩

theorem isSome_lookup_for : (Catalog.lookup "for").isSome = true := by
  decide

/-- A loop around a comment, the loop `x` to the right, under a name with a line feed, last changed
    in a leap second. The loop has a value that its type of block does not declare. -/
def sketch (x : Binary64) : Project where
  name := "„Skizze\" \n 7"
  description := ""
  forest :=
    .ofTrees
      [.node
        { id := "for-1"
          definition := Catalog.entry "for" isSome_lookup_for
          position := ⟨x, 40⟩
          parameters := .ofList [("Übrig", .number (.ofDecimal false 1 (-1))), ("iterable", .text "\\")]
          collapsed := true
          parent := none }
        [.node
          { id := "Zeile"
            definition := Catalog.comment
            position := .origin
            parameters := .empty
            collapsed := false
            parent := some "for-1" } []]]
  createdAt := .sinceEpoch 86399 5
  updatedAt :=
    ⟨⟨2016, 12, 31, by decide, by decide, by decide⟩, 86399, 1500000000, by decide, by decide,
      by decide⟩

/-- With the loop at -12.25 it is loaded as it was, and with the loop at infinity it is refused. -/
theorem save_and_load_sketch :
    (∀ x, (sketch x).forest.Valid ∧ (sketch x).forest.Filled) ∧
    (∀ x ∈ (sketch (.ofDecimal true 1225 (-2))).forest.numbers, x.isFinite = true → x.ReadsBack) ∧
    (∃ q, parse (.sinceEpoch 0 0) (sketch (.ofDecimal true 1225 (-2))).toText = .ok q ∧
      q.name = "„Skizze\" \n 7" ∧
      q.forest.roots = (sketch (.ofDecimal true 1225 (-2))).forest.roots) ∧
    ¬∃ q, parse (.sinceEpoch 0 0) (sketch (.infinite false)).toText = .ok q := by
  have hvalid : ∀ x, (sketch x).forest.Valid := fun x => by rfl
  have hfilled : ∀ x, (sketch x).forest.Filled := fun x => Forest.ofTrees_filled _
  have hheight : ∀ x, Tree.heightAll (sketch x).forest.roots ≤ 62 := fun x => by
    simp [sketch, Forest.ofTrees, Tree.mapAll, Tree.map, Tree.heightAll, Tree.height]
  have hback : ∀ x ∈ (sketch (.ofDecimal true 1225 (-2))).forest.numbers,
      x.isFinite = true → x.ReadsBack := by decide +kernel
  refine ⟨fun x => ⟨hvalid x, hfilled x⟩, hback, ?_, ?_⟩
  · have hfinite : ∀ x ∈ (sketch (.ofDecimal true 1225 (-2))).forest.numbers, x.isFinite = true := by
      decide +kernel
    obtain ⟨hloads, hsame⟩ := save_and_load (hvalid _) (hfilled _) hback (.sinceEpoch 0 0)
    obtain ⟨q, hq⟩ := hloads.mpr ⟨hfinite, hheight _⟩
    obtain ⟨hname, -, -, -, hroots⟩ := hsame q hq
    exact ⟨q, hq, hname, hroots⟩
  · have hback' : ∀ x ∈ (sketch (.infinite false)).forest.numbers,
        x.isFinite = true → x.ReadsBack := by decide +kernel
    have hinfinite : ¬∀ x ∈ (sketch (.infinite false)).forest.numbers, x.isFinite = true := by
      decide +kernel
    intro h
    have hloads := (save_and_load (hvalid _) (hfilled _) hback' (.sinceEpoch 0 0)).1
    exact hinfinite (hloads.mp h).1

end Project

end Blockwork
