import Blockwork.Deflate.Inflate
import Blockwork.Deflate.Stored

/-!
# `Blockwork.Proofs.Archive.Stored`: stored bytes are decompressed to themselves

A block of stored bytes begins with a full byte, so the decompressor reads three bits of that byte
and drops the rest; the lengths and the bytes themselves follow. One block is one step of the
decompressor, and the blocks of a byte sequence are read one after another.

## Contents
- `readMarks_storedBlock`, `readStored_storedBlock`, and `readBlocks_storedBlock`: one block.
- `readBlocks_store`, and `inflate_store`: all blocks.
-/

namespace Blockwork.Deflate

variable {bytes : List UInt8}

/-! ## One block -/

theorem length_storedBlock (last : Bool) (bytes : List UInt8) :
    (storedBlock last bytes).length = bytes.length + 5 := by
  simp only [storedBlock, LittleEndian.encodeFields, List.flatMap_cons, List.flatMap_nil,
    List.length_append, List.length_cons, LittleEndian.length_encode, List.length_nil]
  omega

/-- The first byte of a block says whether it is the last one and that its bytes are stored. -/
theorem readMarks_storedBlock (last : Bool) (following : List UInt8) :
    ∃ unread, readMarks ⟨[], (if last then 1 else 0) :: following⟩
      = .ok ((last, 0), ⟨unread, following⟩) := by
  cases last with
  | true => exact ⟨_, rfl⟩
  | false => exact ⟨_, rfl⟩

/-- The lengths agree, and as many bytes are taken as they say. -/
theorem readStored_storedBlock (hlength : bytes.length ≤ maxStored) (unread : List Bool)
    (following : List UInt8) (out : Array UInt8) :
    readStored
        ⟨unread, LittleEndian.encodeFields [(2, bytes.length), (2, maxStored - bytes.length)] ++
          (bytes ++ following)⟩ out
      = (out ++ bytes, .ok ⟨[], following⟩) := by
  have hwidth : maxStored < Nat.pow 256 2 := by decide
  have hfits : ∀ f ∈ [(2, bytes.length), (2, maxStored - bytes.length)], f.2 < Nat.pow 256 f.1 := by
    simp only [List.forall_mem_cons]
    exact ⟨by omega, by omega, fun f hf => absurd hf List.not_mem_nil⟩
  have hfields : LittleEndian.fields? [2, 2]
        (LittleEndian.encodeFields [(2, bytes.length), (2, maxStored - bytes.length)] ++
          (bytes ++ following))
      = some ([bytes.length, maxStored - bytes.length], bytes ++ following) :=
    LittleEndian.fields?_encodeFields hfits (bytes ++ following)
  have hsum : bytes.length + (maxStored - bytes.length) = 65535 := Nat.add_sub_of_le hlength
  have henough : bytes.length ≤ (bytes ++ following).length := by
    rw [List.length_append]
    omega
  simp only [readStored, hfields]
  rw [if_pos hsum, if_pos henough, List.take_left, List.drop_left]

theorem readBlock_stored (r : Bits) (out : Array UInt8) : readBlock 0 r out = readStored r out := rfl

/-- **One step of the decompressor takes one block.** -/
theorem readBlocks_storedBlock (hlength : bytes.length ≤ maxStored) (last : Bool) (fuel : Nat)
    (following : List UInt8) (out : Array UInt8) :
    readBlocks (fuel + 1) ⟨[], storedBlock last bytes ++ following⟩ out
      = if last then (out ++ bytes, .ok ⟨[], following⟩)
        else readBlocks fuel ⟨[], following⟩ (out ++ bytes) := by
  have hblock : storedBlock last bytes ++ following
      = (if last then 1 else 0) ::
          (LittleEndian.encodeFields [(2, bytes.length), (2, maxStored - bytes.length)] ++
            (bytes ++ following)) := by
    rw [storedBlock, List.cons_append, List.cons_append, List.append_assoc]
  obtain ⟨unread, hmarks⟩ := readMarks_storedBlock last
    (LittleEndian.encodeFields [(2, bytes.length), (2, maxStored - bytes.length)] ++
      (bytes ++ following))
  have hread := readStored_storedBlock hlength unread following out
  rw [hblock, readBlocks, hmarks]
  simp only [readBlock_stored, hread]

/-! ## All blocks -/

theorem length_le_length_store (bytes : List UInt8) : bytes.length ≤ (store bytes).length := by
  induction bytes using store.induct with
  | case1 bytes hshort =>
      rw [store, if_pos hshort, length_storedBlock]
      omega
  | case2 bytes hlong ih =>
      rw [store, if_neg hlong, List.length_append, length_storedBlock, List.length_take]
      rw [List.length_drop] at ih
      omega

/-- The blocks of a byte sequence are read to the end, with fuel for every byte. -/
theorem readBlocks_store {fuel : Nat} (hfuel : bytes.length < fuel) (out : Array UInt8) :
    readBlocks fuel ⟨[], store bytes⟩ out = (out ++ bytes, .ok ⟨[], []⟩) := by
  induction bytes using store.induct generalizing fuel out with
  | case1 bytes hshort =>
      obtain ⟨n, rfl⟩ : ∃ n, fuel = n + 1 := ⟨fuel - 1, by omega⟩
      have hstep := readBlocks_storedBlock hshort true n [] out
      rw [List.append_nil] at hstep
      rw [store, if_pos hshort, hstep, if_pos rfl]
  | case2 bytes hlong ih =>
      obtain ⟨n, rfl⟩ : ∃ n, fuel = n + 1 := ⟨fuel - 1, by omega⟩
      have hfull : (bytes.take maxStored).length ≤ maxStored := List.length_take_le _ _
      have hrest : (bytes.drop maxStored).length < n := by
        have hpos : 0 < maxStored := by decide
        rw [List.length_drop]
        omega
      have hall : out ++ bytes.take maxStored ++ bytes.drop maxStored = out ++ bytes := by
        apply Array.ext'
        simp only [Array.toList_appendList, List.append_assoc, List.take_append_drop]
      rw [store, if_neg hlong, readBlocks_storedBlock hfull, if_neg Bool.false_ne_true, ih hrest, hall]

/-- **Stored bytes are decompressed to themselves.** -/
theorem inflate_store (bytes : List UInt8) : inflate (store bytes) = (bytes, none) := by
  have hfuel : bytes.length < (Bits.ofBytes (store bytes)).size + 1 := by
    have hlength := length_le_length_store bytes
    simp only [Bits.ofBytes, Bits.size, List.length_nil]
    omega
  have hread : readBlocks ((Bits.ofBytes (store bytes)).size + 1) (Bits.ofBytes (store bytes)) #[]
      = (#[] ++ bytes, .ok ⟨[], []⟩) := readBlocks_store hfuel #[]
  simp only [inflate, hread]
  simp

end Blockwork.Deflate
