import Blockwork.Project
import Blockwork.Proofs.Json.Pretty
import Blockwork.Proofs.Saved.Forest
import Blockwork.Text.Utf8

/-!
# `Blockwork.Proofs.Saved.Size`: a saved text is at least as long as its forest is large

Every block is saved as an object, and every object takes a character of its own. So whoever can keep
the text of a forest can also count its blocks.

## Contents
- `length_prettyItems_le`, `length_prettyItems_cons_le`, `length_prettyAt_record_le`: a part of a text
  is not longer than the whole.
- `Tree.sizeAll_le_length`, and `Project.size_le_length_toText`.
-/

namespace Blockwork

namespace Json

/-! ## Parts of a text -/

theorem length_prettyItems_le (level : Nat) (items : List Json) :
    (prettyItems (level + 1) items).toList.length ≤ (prettyAt level (array items)).toList.length := by
  by_cases hnil : items = []
  · subst hnil
    rw [prettyItems]
    exact Nat.zero_le _
  · rw [toList_prettyAt_array level hnil, List.length_cons, List.length_append]
    omega

theorem length_prettyItems_cons_le (level : Nat) (j : Json) (items : List Json) :
    (prettyAt level j).toList.length + (prettyItems level items).toList.length
      ≤ (prettyItems level (j :: items)).toList.length := by
  by_cases hnil : items = []
  · subst hnil
    rw [toList_prettyItems_singleton, List.length_append, prettyItems]
    show _ + 0 ≤ _
    omega
  · rw [toList_prettyItems_cons level j hnil]
    simp only [List.length_append, List.length_cons]
    omega

theorem length_prettyAt_le_of_mem {members : List (String × Json)} {m : String × Json}
    (hm : m ∈ members) (level : Nat) :
    (prettyAt level m.2).toList.length
      ≤ (prettyMembers level (members.map fun m => (some m.1, m.2))).toList.length := by
  induction members with
  | nil => exact absurd hm List.not_mem_nil
  | cons n members ih =>
      obtain ⟨key, j⟩ := n
      by_cases hnil : members = []
      · subst hnil
        rw [List.mem_singleton] at hm
        subst hm
        rw [List.map_cons, List.map_nil, toList_prettyMembers_singleton]
        simp only [List.length_append, List.length_cons]
        omega
      · have hne : members.map (fun m => (some m.1, m.2)) ≠ [] := by simpa using hnil
        rw [List.map_cons, toList_prettyMembers_cons _ _ _ hne]
        simp only [List.length_append, List.length_cons]
        rcases List.mem_cons.mp hm with rfl | hm
        · show (prettyAt level j).toList.length ≤ _
          omega
        · have hrest := ih hm
          omega

/-- A member of a record is shorter than the record. -/
theorem length_prettyAt_record_le {members : List (String × Json)} {m : String × Json}
    (hm : m ∈ members) (level : Nat) :
    (prettyAt (level + 1) m.2).toList.length + 1 ≤ (prettyAt level (record members)).toList.length := by
  have hmember := length_prettyAt_le_of_mem hm (level + 1)
  have hne : members.map (fun m => (some m.1, m.2)) ≠ [] := by
    simpa using List.ne_nil_of_mem hm
  rw [record, toList_prettyAt_object level hne, List.length_cons, List.length_append]
  omega

end Json

/-! ## Blocks -/

/-- The text of some siblings has a character for every block. -/
theorem Tree.sizeAll_le_length (level : Nat) (ts : List Tree) :
    sizeAll ts ≤ (Json.prettyItems level (encodeAll ts)).toList.length := by
  induction ts using siblingInduction generalizing level with
  | nil => exact Nat.zero_le _
  | cons b us ts ihUs ihTs =>
      have hchildren := Json.length_prettyItems_le (level + 1) (encodeAll us)
      have hblock : (Json.prettyAt (level + 1) (.array (encodeAll us))).toList.length + 1
          ≤ (Json.prettyAt level (encode (node b us))).toList.length := by
        rw [encode_node]
        refine Json.length_prettyAt_record_le (m := ("children", .array (encodeAll us))) ?_ level
        exact List.mem_append_left _ (by simp)
      have hitems := Json.length_prettyItems_cons_le level (encode (node b us)) (encodeAll ts)
      have hus := ihUs (level + 1 + 1)
      have hts := ihTs level
      rw [sizeAll, size, encodeAll]
      omega

/-- Every character takes at least one byte. -/
theorem Utf8.length_le_length_encode (s : String) : s.toList.length ≤ (encode s).length := by
  have hbytes : encode s = s.toList.flatMap String.utf8EncodeChar := by
    show s.toByteArray.data.toList = _
    rw [← String.utf8Encode_toList, List.utf8Encode, List.data_toByteArray]
  rw [hbytes]
  induction s.toList with
  | nil => exact Nat.le_refl 0
  | cons c cs ih =>
      have hpos : 0 < c.utf8Size := Char.utf8Size_pos c
      rw [List.flatMap_cons, List.length_append, String.length_utf8EncodeChar, List.length_cons]
      omega

/-- **A saved project takes a byte for every block.** -/
theorem Project.size_le_length_toText (p : Project) :
    p.forest.size ≤ (Utf8.encode p.toText).length := by
  have hblocks : (Json.prettyAt 1 p.forest.encode).toList.length + 1 ≤ p.toText.toList.length := by
    refine Json.length_prettyAt_record_le (m := ("blocks", p.forest.encode)) ?_ 0
    simp
  have harray : (Json.prettyItems 2 (Tree.encodeAll p.forest.roots)).toList.length
      ≤ (Json.prettyAt 1 (.array (Tree.encodeAll p.forest.roots))).toList.length :=
    Json.length_prettyItems_le 1 _
  have hsize := Tree.sizeAll_le_length 2 p.forest.roots
  have hbytes := Utf8.length_le_length_encode p.toText
  show Tree.sizeAll p.forest.roots ≤ _
  rw [Forest.encode] at hblocks
  omega

end Blockwork
