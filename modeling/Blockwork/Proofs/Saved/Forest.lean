import Blockwork.Proofs.Forest.Filled
import Blockwork.Proofs.Saved.Loaded
import Blockwork.Proofs.Settings
import Blockwork.Proofs.Tree.Subtrees
import Blockwork.Saved.Forest

/-!
# `Blockwork.Proofs.Saved.Forest`: blocks are taken over as they were saved

Loading undoes saving, field by field and block by block. Only the numbers stand in the way: one that
is not finite is saved as null, and null is no coordinate and no parameter value. So a list of blocks
is taken over exactly if all its numbers are finite, and then as it was.

How deep the saved tree is nested is settled by the blocks alone: each level of blocks adds an object
and the array of its children, and the innermost block still has its position and its parameters.

## Contents
- `Settings.numbers`, `Block.numbers`, `Forest.numbers`.
- `Settings.ofList_entries`: entries inserted in their order make the same map.
- `Value.decode_loaded`, `Settings.decode_loaded`, `Position.decode_loaded`.
- `Tree.decodeAll_loaded`: **blocks that were saved are loaded exactly if their numbers are finite**;
  `Tree.idsAll_of_decodeAll_loaded`: whenever they are loaded, they have their ids.
- `Tree.plain_encodeAll`, `Tree.readableAll_reread`: what is saved of blocks, and its nesting.
-/

namespace Blockwork

open Saved

/-! ## The numbers of a block -/

/-- The number that a value is, if it is one. -/
def Value.number? : Value → Option Binary64
  | number x => some x
  | _ => none

/-- The numbers among the values. -/
def Settings.numbers (s : Settings) : List Binary64 :=
  s.entries.filterMap fun e => e.2.number?

/-- The coordinates of a block and the numbers among its parameter values. -/
def Block.numbers (b : Block) : List Binary64 :=
  b.position.x :: b.position.y :: b.parameters.numbers

/-- All coordinates and all numbers among the parameter values. -/
def Forest.numbers (f : Forest) : List Binary64 :=
  f.blocks.flatMap Block.numbers

theorem Forest.forall_mem_numbers {f : Forest} {p : Binary64 → Prop} :
    (∀ x ∈ f.numbers, p x) ↔ ∀ b ∈ Tree.blocksAll f.roots, ∀ x ∈ b.numbers, p x :=
  List.forall_mem_flatMap

/-! ## Values -/

theorem Value.decode_loaded {v w : Value}
    (hv : ∀ x ∈ v.number?, x.isFinite = true → x.ReadsBack) (depth : Nat) :
    decode depth (Json.loaded v.encode) = .ok w ↔ (∀ x ∈ v.number?, x.isFinite = true) ∧ w = v := by
  cases v with
  | bool b =>
      rw [encode, Json.loaded_bool]
      exact ⟨fun h => ⟨fun x hx => (nomatch hx), (Except.ok.inj h).symm⟩, fun h => h.2 ▸ rfl⟩
  | text s =>
      rw [encode, Json.loaded_text]
      exact ⟨fun h => ⟨fun x hx => (nomatch hx), (Except.ok.inj h).symm⟩, fun h => h.2 ▸ rfl⟩
  | number x =>
      have hone : (∀ y ∈ (number x).number?, y.isFinite = true) ↔ x.isFinite = true := by
        simp [number?]
      rw [encode, hone]
      by_cases hfinite : x.isFinite = true
      · obtain ⟨n, hloaded, hn⟩ := exists_loaded_of_readsBack (hv x rfl hfinite)
        have hdecode : decode depth (.number n) = .ok (number n.toBinary64) := rfl
        rw [hloaded, hdecode, hn]
        exact ⟨fun h => ⟨hfinite, (Except.ok.inj h).symm⟩, fun h => h.2 ▸ rfl⟩
      · rw [loaded_of_not_isFinite hfinite]
        exact ⟨fun h => (nomatch h), fun h => absurd h.1 hfinite⟩

/-! ## Parameter values -/

/-- A name above all others goes to the end. -/
theorem insertEntry_of_forall_lt {name : String} {value : Value} {entries : List (String × Value)}
    (h : ∀ e ∈ entries, e.1 < name) : insertEntry name value entries = entries ++ [(name, value)] := by
  induction entries with
  | nil => rfl
  | cons e entries ih =>
      obtain ⟨he, hentries⟩ := List.forall_mem_cons.mp h
      obtain ⟨n, v⟩ := e
      have hne : name ≠ n := by
        rintro rfl
        exact String.lt_irrefl _ he
      rw [insertEntry, if_neg (String.lt_asymm he), if_neg hne, ih hentries, List.cons_append]

namespace Settings

theorem entries_override {s : Settings} {entries : List (String × Value)}
    (h : (s.entries ++ entries).Pairwise (·.1 < ·.1)) :
    (s.override entries).entries = s.entries ++ entries := by
  induction entries generalizing s with
  | nil => rw [override, List.foldl_nil, List.append_nil]
  | cons e entries ih =>
      have hlast : ∀ n ∈ s.entries, n.1 < e.1 := fun n hn =>
        (List.pairwise_append.mp h).2.2 n hn e List.mem_cons_self
      have hinsert : (s.insert e.1 e.2).entries = s.entries ++ [e] := insertEntry_of_forall_lt hlast
      rw [List.append_cons, ← hinsert] at h ⊢
      exact ih h

/-- The entries of a map, inserted in their order, make that map. -/
theorem ofList_entries (s : Settings) : ofList s.entries = s :=
  eq_of_entries_eq (entries_override s.sorted)

theorem forall_mem_numbers {s : Settings} {p : Binary64 → Prop} :
    (∀ x ∈ s.numbers, p x) ↔ ∀ e ∈ s.entries, ∀ x ∈ e.2.number?, p x := by
  simp only [numbers, List.mem_filterMap, Option.mem_def]
  exact ⟨fun h e he x hx => h x ⟨e, he, hx⟩, fun h x ⟨e, he, hx⟩ => h e he x hx⟩

/-- Values are taken over one by one, up to the first that is not finite. -/
theorem decodeMembers_loaded {entries : List (String × Value)}
    (hentries : ∀ e ∈ entries, ∀ x ∈ e.2.number?, x.isFinite = true → x.ReadsBack)
    (depth : Nat) {s t : Settings} :
    decodeMembers (fun s name j => (Value.decode depth j).map (s.insert name)) s
        (entries.map fun e => (some e.1, Json.loaded e.2.encode)) = .ok t ↔
      (∀ e ∈ entries, ∀ x ∈ e.2.number?, x.isFinite = true) ∧ t = s.override entries := by
  induction entries generalizing s with
  | nil =>
      rw [List.map_nil, decodeMembers, Except.ok.injEq]
      exact ⟨fun h => ⟨fun e he => (nomatch he), h.symm⟩, fun h => h.2.symm⟩
  | cons e entries ih =>
      obtain ⟨he, hentries⟩ := List.forall_mem_cons.mp hentries
      rw [List.map_cons, decodeMembers, bind_eq_ok, List.forall_mem_cons]
      simp only [map_eq_ok, Value.decode_loaded he, ih hentries]
      constructor
      · rintro ⟨u, ⟨w, ⟨hfinite, rfl⟩, rfl⟩, hrest, rfl⟩
        exact ⟨⟨hfinite, hrest⟩, rfl⟩
      · rintro ⟨⟨hfinite, hrest⟩, rfl⟩
        exact ⟨_, ⟨e.2, ⟨hfinite, rfl⟩, rfl⟩, hrest, rfl⟩

/-- Parameter values are taken over exactly if their numbers are finite. -/
theorem decode_loaded {s t : Settings} (hs : ∀ x ∈ s.numbers, x.isFinite = true → x.ReadsBack)
    (depth : Nat) :
    decode depth (Json.loaded s.encode) = .ok t ↔ (∀ x ∈ s.numbers, x.isFinite = true) ∧ t = s := by
  have hmembers : Json.loaded s.encode
      = .object (s.entries.map fun e => (some e.1, Json.loaded e.2.encode)) := by
    rw [encode, Json.loaded_record_of_sorted, Json.record, List.map_map, List.map_map]
    · rfl
    · rw [List.pairwise_map]
      exact s.sorted
  rw [hmembers, decode, decodeMembers_loaded (forall_mem_numbers.mp hs), ← ofList, ofList_entries,
    forall_mem_numbers]

end Settings

/-! ## Positions -/

theorem Position.decode_record (origin : Origin) (jx jy : Json) :
    decode origin (.record [("x", jx), ("y", jy)])
      = (do return ⟨← decodeNumber jx, ← decodeNumber jy⟩) := by
  simp only [decode, decodeRecord, Json.record, List.map_cons, List.map_nil, decodeMembers,
    Draft.field, once]
  cases decodeNumber jx with
  | error e => rfl
  | ok x => cases decodeNumber jy <;> rfl

/-- A position is taken over exactly if its coordinates are finite. -/
theorem Position.decode_loaded {p q : Position} (hx : p.x.isFinite = true → p.x.ReadsBack)
    (hy : p.y.isFinite = true → p.y.ReadsBack) (origin : Origin) :
    decode origin (Json.loaded p.encode) = .ok q ↔
      p.x.isFinite = true ∧ p.y.isFinite = true ∧ q = p := by
  have hmembers : Json.loaded p.encode
      = .record [("x", Json.loaded (.number (.real p.x))), ("y", Json.loaded (.number (.real p.y)))] :=
    Json.loaded_record_of_sorted (List.pairwise_pair.mpr (by decide : "x" < "y"))
  rw [hmembers, decode_record]
  simp only [bind_eq_ok, decodeNumber_loaded hx, decodeNumber_loaded hy]
  constructor
  · rintro ⟨x, ⟨hxf, rfl⟩, y, ⟨hyf, rfl⟩, h⟩
    exact ⟨hxf, hyf, (Except.ok.inj h).symm⟩
  · rintro ⟨hxf, hyf, rfl⟩
    exact ⟨_, ⟨hxf, rfl⟩, _, ⟨hyf, rfl⟩, rfl⟩

/-! ### What is saved -/

theorem Value.plain_encode (v : Value) : Json.Plain v.encode := by
  cases v with
  | bool b => exact .bool b
  | number x => exact .number x
  | text s => exact .text s

theorem Settings.plain_encode (s : Settings) : Json.Plain s.encode := by
  refine .record fun m hm => ?_
  obtain ⟨e, -, rfl⟩ := List.mem_map.mp hm
  exact e.2.plain_encode

theorem Position.plain_encode (p : Position) : Json.Plain p.encode := by
  refine .record ?_
  simp only [List.forall_mem_cons]
  exact ⟨.number _, .number _, fun m hm => (nomatch hm)⟩

theorem Value.readable_reread {v : Value} (hv : ∀ x ∈ v.number?, x.isFinite = true → x.ReadsBack)
    (depth : Nat) : (Json.reread v.encode).readable depth = true := by
  cases v with
  | bool b => rfl
  | number x => exact readable_reread_number (hv x rfl) depth
  | text s => rfl

theorem Settings.readable_reread {s : Settings}
    (hs : ∀ x ∈ s.numbers, x.isFinite = true → x.ReadsBack) (depth : Nat) :
    (Json.reread s.encode).readable depth = true ↔ 0 < depth := by
  rw [encode, Json.reread_record, Json.readable_record, List.map_map, List.forall_mem_map]
  exact and_iff_left fun e he => Value.readable_reread (forall_mem_numbers.mp hs e he) (depth - 1)

theorem Position.readable_reread {p : Position} (hx : p.x.isFinite = true → p.x.ReadsBack)
    (hy : p.y.isFinite = true → p.y.ReadsBack) (depth : Nat) :
    (Json.reread p.encode).readable depth = true ↔ 0 < depth := by
  rw [encode, Json.reread_record, Json.readable_record, List.forall_mem_map]
  refine and_iff_left ?_
  simp only [List.forall_mem_cons]
  exact ⟨readable_reread_number hx _, readable_reread_number hy _, fun m hm => (nomatch hm)⟩

/-! ## Blocks -/

/-- Every type of block is found under its id. -/
theorem Catalog.lookup_id (e : Entry) : lookup e.val.id = some e := by
  have hall : ∀ e ∈ entries, lookup e.val.id = some e := by decide
  exact hall e (List.mem_attach _ e)

namespace Tree

theorem decodeField_of_ne {name : String} (h : name ≠ "children") (draft : Draft) (j : Json) :
    decodeField draft name j = draft.field name j := by
  cases j <;> simp [decodeField, h]

theorem decodeDefinition_id (e : Entry) : decodeDefinition (.text e.val.id) = .ok e := by
  rw [decodeDefinition]
  exact bind_eq_ok.mpr ⟨e.val.id, rfl, by rw [Catalog.lookup_id]; rfl⟩

/-- The member that names the parent, if there is one. -/
def parentMember (parent : Option BlockId) : List (String × Json) :=
  (parent.map fun p => ("parentId", Json.text p)).toList

theorem mem_parentMember {parent : Option BlockId} {m : String × Json} :
    m ∈ parentMember parent ↔ ∃ p ∈ parent, ("parentId", Json.text p) = m := by
  rw [parentMember, Option.mem_toList, Option.map_eq_some_iff]
  rfl

theorem encode_node (b : Block) (ts : List Tree) :
    encode (node b ts)
      = .record
          ([("id", .text b.id), ("block", .text b.definition.val.id),
              ("position", b.position.encode), ("parameters", b.parameters.encode),
              ("children", .array (encodeAll ts)), ("collapsed", .bool b.collapsed)] ++
            parentMember b.parent) := by
  rw [encode, parentMember]
  cases b.parent <;> rfl

theorem loaded_encode (b : Block) (ts : List Tree) :
    Json.loaded (encode (node b ts))
      = .record
          ([("block", .text b.definition.val.id),
              ("children", .array ((encodeAll ts).map Json.loaded)),
              ("collapsed", .bool b.collapsed), ("id", .text b.id),
              ("parameters", Json.loaded b.parameters.encode)] ++
            (parentMember b.parent ++ [("position", Json.loaded b.position.encode)])) := by
  rw [encode_node, Json.loaded_record]
  cases b.parent <;>
    simp only [parentMember, Json.record, Json.loaded_text, Json.loaded_bool, Json.loaded_array,
      Option.map_none, Option.map_some, Option.toList_none, Option.toList_some, List.cons_append,
      List.nil_append, List.append_nil, List.map_cons, List.map_nil, List.foldl_cons, List.foldl_nil,
      Json.insertMember, Option.getD_some, Option.some.injEq, String.reduceLT, String.reduceEq,
      if_true, if_false]

/-- The record of a block gives the block as soon as its parts give theirs. -/
theorem decode_record (e : Entry) (id : BlockId) (collapsed : Bool) (parent : Option BlockId)
    (items : List Json) (jparameters jposition : Json) :
    decode
        (.record
          ([("block", .text e.val.id), ("children", .array items), ("collapsed", .bool collapsed),
              ("id", .text id), ("parameters", jparameters)] ++
            (parentMember parent ++ [("position", jposition)])))
      = (do
          let children ← decodeAll items
          let parameters ← Settings.decode Origin.whole.depth jparameters
          let position ← Position.decode .whole jposition
          return node { id, definition := e, position, parameters, collapsed, parent } children) := by
  cases parent <;>
    simp only [parentMember, Json.record, Option.map_none, Option.map_some, Option.toList_none,
      Option.toList_some, List.nil_append, List.cons_append, List.map_cons, List.map_nil, decode,
      decodeMembers, decodeField_of_ne, decodeField, Draft.field, decodeDefinition_id, decodeText,
      decodeBool, decodeOption, ne_eq, String.reduceEq, not_false_eq_true, if_true]
  all_goals
    cases decodeAll items with
    | error error => rfl
    | ok children =>
        cases Settings.decode Origin.whole.depth jparameters with
        | error error => rfl
        | ok parameters => cases Position.decode .whole jposition <;> rfl

/-- **Saved blocks are taken over exactly if their numbers are finite**, and then as they were. -/
theorem decodeAll_loaded {ts us : List Tree}
    (hts : ∀ b ∈ blocksAll ts, ∀ x ∈ b.numbers, x.isFinite = true → x.ReadsBack) :
    decodeAll ((encodeAll ts).map Json.loaded) = .ok us ↔
      (∀ b ∈ blocksAll ts, ∀ x ∈ b.numbers, x.isFinite = true) ∧ us = ts := by
  -- The content of a block and the siblings after it are taken over by the same function.
  induction ts using siblingInduction generalizing us with
  | nil =>
      rw [encodeAll, List.map_nil, decodeAll, Except.ok.injEq]
      exact ⟨fun h => ⟨fun b hb => (nomatch hb), h.symm⟩, fun h => h.2.symm⟩
  | cons b vs ts ihVs ihTs =>
      rw [blocksAll_cons, List.forall_mem_cons, List.forall_mem_append] at hts ⊢
      obtain ⟨hb, hvs, hts⟩ := hts
      rw [Block.numbers, List.forall_mem_cons, List.forall_mem_cons] at hb ⊢
      obtain ⟨hx, hy, hparameters⟩ := hb
      rw [encodeAll, List.map_cons, decodeAll, loaded_encode, decode_record]
      simp only [bind_eq_ok, ihVs hvs, ihTs hts, Settings.decode_loaded hparameters,
        Position.decode_loaded hx hy]
      constructor
      · rintro ⟨t, ⟨children, ⟨hvs, rfl⟩, parameters, ⟨hnumbers, rfl⟩, position, ⟨hx, hy, rfl⟩, ht⟩,
          rest, ⟨hts, rfl⟩, hus⟩
        cases ht
        cases hus
        exact ⟨⟨⟨hx, hy, hnumbers⟩, hvs, hts⟩, rfl⟩
      · rintro ⟨⟨⟨hx, hy, hnumbers⟩, hvs, hts⟩, rfl⟩
        exact ⟨_, ⟨_, ⟨hvs, rfl⟩, _, ⟨hnumbers, rfl⟩, _, ⟨hx, hy, rfl⟩, rfl⟩, _, ⟨hts, rfl⟩, rfl⟩

/-- The ids are taken over as they were, whatever becomes of the numbers. -/
theorem idsAll_of_decodeAll_loaded {ts us : List Tree}
    (h : decodeAll ((encodeAll ts).map Json.loaded) = .ok us) : idsAll us = idsAll ts := by
  induction ts using siblingInduction generalizing us with
  | nil =>
      cases h
      rfl
  | cons b vs ts ihVs ihTs =>
      rw [encodeAll, List.map_cons, decodeAll, loaded_encode, decode_record] at h
      simp only [bind_eq_ok] at h
      obtain ⟨t, ⟨children, hchildren, parameters, -, position, -, ht⟩, rest, hrest, hus⟩ := h
      cases ht
      cases hus
      rw [idsAll_cons, idsAll_cons, ihVs hchildren, ihTs hrest]

/-! ### What is saved -/

/-- What is saved of blocks is plain. -/
theorem plain_encodeAll (ts : List Tree) : ∀ j ∈ encodeAll ts, Json.Plain j := by
  induction ts using siblingInduction with
  | nil => exact fun j hj => (nomatch hj)
  | cons b us ts ihUs ihTs =>
      rw [encodeAll, List.forall_mem_cons, encode_node]
      refine ⟨.record ?_, ihTs⟩
      rw [List.forall_mem_append]
      constructor
      · simp only [List.forall_mem_cons]
        exact ⟨.text _, .text _, Position.plain_encode _, Settings.plain_encode _, .array ihUs, .bool _,
          fun m hm => (nomatch hm)⟩
      · intro m hm
        obtain ⟨p, -, rfl⟩ := mem_parentMember.mp hm
        exact .text p

/-- A level of blocks costs two levels of the text. -/
theorem readableAll_reread {ts : List Tree}
    (hts : ∀ b ∈ blocksAll ts, ∀ x ∈ b.numbers, x.isFinite = true → x.ReadsBack) {depth : Nat} :
    (∀ j ∈ encodeAll ts, (Json.reread j).readable depth = true) ↔ 2 * heightAll ts ≤ depth := by
  induction ts using siblingInduction generalizing depth with
  | nil => simp [encodeAll, heightAll]
  | cons b us ts ihUs ihTs =>
      rw [blocksAll_cons, List.forall_mem_cons, List.forall_mem_append] at hts
      obtain ⟨hb, hus, hts⟩ := hts
      rw [Block.numbers, List.forall_mem_cons, List.forall_mem_cons] at hb
      obtain ⟨hx, hy, hparameters⟩ := hb
      have hnode : (Json.reread (encode (node b us))).readable depth = true ↔
          2 * height (node b us) ≤ depth := by
        have hparent : ∀ m ∈ parentMember b.parent, (Json.reread m.2).readable (depth - 1) = true := by
          intro m hm
          obtain ⟨p, -, rfl⟩ := mem_parentMember.mp hm
          rfl
        have htext : ∀ s, (Json.reread (.text s)).readable (depth - 1) = true := fun s => rfl
        have hbool : ∀ c, (Json.reread (.bool c)).readable (depth - 1) = true := fun c => rfl
        have hchildren : (Json.reread (.array (encodeAll us))).readable (depth - 1) = true ↔
            0 < depth - 1 ∧ 2 * heightAll us ≤ depth - 1 - 1 := by
          rw [Json.reread, Json.rereadAll_eq_map, Json.readable_array, List.forall_mem_map, ihUs hus]
        rw [encode_node, Json.reread_record, Json.readable_record, List.forall_mem_map,
          List.forall_mem_append, and_iff_left hparent, height]
        -- The position and the parameters of a block without content are as deep as its content.
        simp only [List.forall_mem_cons, List.not_mem_nil, false_implies, implies_true, and_true, htext,
          hbool, true_and, Position.readable_reread hx hy, Settings.readable_reread hparameters, hchildren]
        omega
      rw [encodeAll, List.forall_mem_cons, hnode, ihTs hts, heightAll]
      omega

end Tree

end Blockwork
