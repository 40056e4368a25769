import Blockwork.Archive.Reader
import Blockwork.Archive.Writer
import Blockwork.Proofs.Archive.Stored
import Mathlib.Algebra.GroupWithZero.Nat
import Mathlib.Data.List.Basic

/-!
# `Blockwork.Proofs.Archive.RoundTrip`: an archive that was written is opened again

Every record is found where another record says it is, so the bytes of an archive are described by
what follows at each place: `bytes.drop position = …`. A record at such a place is read for what it
is, and the walk through the directory is one induction over the files. The closing record is found
because nothing after its beginning is long enough to be another one. A number that is too large for a
record leaves a mark there, and whoever meets the mark finds the number elsewhere: behind the name of a
file, or in the wide closing record.

## Contents
- `fields?_encodeRecord`, `fields?_eq_none`: records are read back, and too few bytes are none.
- `Item.member`, the member that is read for a file, and `Item.Fits`.
- `Item.widen_extra`: numbers that are too large are put back.
- `dataStart?_encode`, `memberAt?_encodeDirectory`, and `membersAt?_encodeDirectory`.
- `exists_occurrences_append`: the last places of a mark are those in the last bytes.
- `openNarrow?_encode` and `openWide?_encode`, and `openAt?_encode` for both.
- `ofBytes?_encode`, and `write?_eq_some_iff`: what was written is opened with all its files.
- `content_member`: their bytes are those that were put in.
-/

namespace Blockwork

/-! ## Fields -/

namespace LittleEndian

theorem length_encodeFields (fields : List (Nat × Nat)) :
    (encodeFields fields).length = (fields.map Prod.fst).sum := by
  induction fields with
  | nil => rfl
  | cons f fs ih =>
      have hcons : encodeFields (f :: fs) = encode f.1 f.2 ++ encodeFields fs := rfl
      rw [hcons, List.length_append, length_encode, ih, List.map_cons, List.sum_cons]

/-- Numbers cannot be read from fewer bytes than they take. -/
theorem fields?_eq_none {widths : List Nat} {bytes : List UInt8} (h : bytes.length < widths.sum) :
    fields? widths bytes = none := by
  induction widths generalizing bytes with
  | nil => exact absurd h (by simp)
  | cons width widths ih =>
      rw [List.sum_cons] at h
      rw [fields?]
      by_cases hwidth : width ≤ bytes.length
      · have hrest : (bytes.drop width).length < widths.sum := by
          rw [List.length_drop]
          omega
        simp [split?, hwidth, ih hrest]
      · simp [split?, hwidth]

end LittleEndian

namespace Archive

theorem length_encodeRecord {widths fields : List Nat} (hlength : widths.length = fields.length) :
    (encodeRecord widths fields).length = widths.sum := by
  rw [encodeRecord, LittleEndian.length_encodeFields, List.map_fst_zip (Nat.le_of_eq hlength)]

/-- A record whose numbers fit is read back. -/
theorem fields?_encodeRecord {widths fields : List Nat} (hlength : widths.length = fields.length)
    (hfits : ∀ f ∈ widths.zip fields, f.2 < Nat.pow 256 f.1) (rest : List UInt8) :
    LittleEndian.fields? widths (encodeRecord widths fields ++ rest) = some (fields, rest) := by
  have hread := LittleEndian.fields?_encodeFields hfits rest
  rwa [List.map_fst_zip (Nat.le_of_eq hlength), List.map_snd_zip (Nat.le_of_eq hlength.symm)] at hread

theorem length_localRecord (r : LocalRecord) :
    (encodeRecord LocalRecord.widths r.fields).length = LocalRecord.length := by
  have hlength : LocalRecord.widths.length = r.fields.length := rfl
  rw [length_encodeRecord hlength]
  rfl

theorem length_directoryRecord (r : DirectoryRecord) :
    (encodeRecord DirectoryRecord.widths r.fields).length = DirectoryRecord.length := by
  have hlength : DirectoryRecord.widths.length = r.fields.length := rfl
  rw [length_encodeRecord hlength]
  rfl

theorem length_closingRecord (r : ClosingRecord) :
    (encodeRecord ClosingRecord.widths r.fields).length = 22 := by
  have hlength : ClosingRecord.widths.length = r.fields.length := rfl
  rw [length_encodeRecord hlength]
  rfl

/-! ## Files -/

namespace Item

variable {i : Item}

/-- The member that is read for a file. -/
def member (i : Item) : Member where
  name := decodeName (isUtf8 i.flags) i.nameBytes
  encrypted := false
  method := .deflated
  checksum := Crc32.checksum i.content
  data := i.data

/-- The sizes fit into the records. -/
structure Fits (i : Item) : Prop where
  name : i.nameBytes.length < 65536
  content : i.content.length < 4294967296
  data : i.data.length < 4294967296

theorem fits_iff : i.Fits ↔
    i.nameBytes.length < 65536 ∧ i.content.length < 4294967296 ∧ i.data.length < 4294967296 :=
  ⟨fun h => ⟨h.name, h.content, h.data⟩, fun h => ⟨h.1, h.2.1, h.2.2⟩⟩

instance (i : Item) : Decidable i.Fits :=
  decidable_of_iff _ fits_iff.symm

theorem flags_cases (i : Item) : i.flags = 0 ∨ i.flags = utf8Flag := by
  unfold flags
  split
  · exact Or.inl rfl
  · exact Or.inr rfl

theorem flags_lt (i : Item) : i.flags < 65536 := by
  rcases i.flags_cases with h | h <;> rw [h] <;> decide

theorem isEncrypted_flags (i : Item) : isEncrypted i.flags = false := by
  rcases i.flags_cases with h | h <;> rw [h] <;> decide

theorem checksum_lt (i : Item) : (Crc32.checksum i.content).toNat < 4294967296 :=
  (Crc32.checksum i.content).toNat_lt

theorem length_encode (i : Item) :
    i.encode.length = LocalRecord.length + i.nameBytes.length + i.data.length := by
  rw [encode, List.length_append, List.length_append, length_localRecord]

theorem length_encodeDirectory (i : Item) (offset : Nat) :
    (i.encodeDirectory offset).length
      = DirectoryRecord.length + i.nameBytes.length + (i.extra offset).length := by
  rw [encodeDirectory, List.length_append, List.length_append, length_directoryRecord]

/-! ### Numbers that are too large -/

theorem length_wideBytes (n : Nat) : (wideBytes n).length = if full32 ≤ n then 8 else 0 := by
  unfold wideBytes
  split
  · exact LittleEndian.length_encode 8 n
  · rfl

/-- A field is taken for one that is too small for its number exactly if it is. -/
theorem isFull_min {all : Bool} {n : Nat} (hall : all = true → full32 ≤ n) :
    (all || min n full32 == full32) = decide (full32 ≤ n) := by
  by_cases hwide : full32 ≤ n
  · rw [Nat.min_eq_right hwide, beq_self_eq_true, Bool.or_true, decide_eq_true hwide]
  · have hnone : all = false := Bool.eq_false_iff.mpr fun h => hwide (hall h)
    have hne : n ≠ full32 := fun h => hwide (Nat.le_of_eq h.symm)
    rw [Nat.min_eq_left (Nat.le_of_not_le hwide), hnone, beq_eq_false_iff_ne.mpr hne,
      decide_eq_false hwide, Bool.or_false]

/-- A number that is too large is found among the bytes behind, and any other one stays. -/
theorem wideNumber_wideBytes {all : Bool} {n : Nat} (hn : n < 18446744073709551616)
    (hall : all = true → full32 ≤ n) (rest : List UInt8) :
    wideNumber all (min n full32) (wideBytes n ++ rest) = (n, rest) := by
  rw [wideNumber, isFull_min hall, wideBytes]
  by_cases hwide : full32 ≤ n
  · have hsplit := LittleEndian.split?_append (LittleEndian.encode 8 n) rest
    rw [LittleEndian.length_encode] at hsplit
    have hdecode : LittleEndian.decode (LittleEndian.encode 8 n) = n :=
      LittleEndian.decode_encode (hn : n < Nat.pow 256 8)
    rw [if_pos hwide, if_pos (decide_eq_true hwide), hsplit]
    exact congrArg (·, rest) hdecode
  · rw [if_neg hwide, if_neg (by simpa using hwide), Nat.min_eq_left (Nat.le_of_not_le hwide)]
    rfl

theorem withNumbers_nil (all : Bool) (r : DirectoryRecord) : r.withNumbers all [] = r := by
  have hstays : ∀ n, wideNumber all n [] = (n, []) := by
    intro n
    unfold wideNumber
    split <;> rfl
  simp only [DirectoryRecord.withNumbers, hstays]

/-- The directory's record of a file with all its numbers. -/
def fullRecord (i : Item) (offset : Nat) : DirectoryRecord :=
  { i.directoryRecord offset with
    size := i.content.length
    compressedSize := i.data.length
    offset }

theorem length_wideNumbers (i : Item) (offset : Nat) :
    (i.wideNumbers offset).length
      = (if full32 ≤ i.content.length then 8 else 0) + (if full32 ≤ i.data.length then 8 else 0)
        + (if full32 ≤ offset then 8 else 0) := by
  rw [wideNumbers, List.length_append, List.length_append, length_wideBytes, length_wideBytes,
    length_wideBytes]

/-- With 24 bytes all three numbers are too large. -/
theorem le_of_length_wideNumbers {i : Item} {offset : Nat} (h : 24 ≤ (i.wideNumbers offset).length) :
    full32 ≤ i.content.length ∧ full32 ≤ i.data.length ∧ full32 ≤ offset := by
  rw [length_wideNumbers] at h
  split_ifs at h with hcontent hdata hoffset
  · exact ⟨hcontent, hdata, hoffset⟩
  all_goals omega

theorem withNumbers_wideNumbers {offset : Nat} (h : i.Fits) (hoffset : offset < 18446744073709551616) :
    (i.directoryRecord offset).withNumbers (decide (24 ≤ (i.wideNumbers offset).length))
        (i.wideNumbers offset)
      = i.fullRecord offset := by
  have hall : decide (24 ≤ (i.wideNumbers offset).length) = true → _ :=
    fun hall => le_of_length_wideNumbers (of_decide_eq_true hall)
  generalize decide (24 ≤ (i.wideNumbers offset).length) = all at hall ⊢
  have hcontent := wideNumber_wideBytes (Nat.lt_trans h.content (by decide)) (fun h => (hall h).1)
    (wideBytes i.data.length ++ wideBytes offset)
  have hdata := wideNumber_wideBytes (Nat.lt_trans h.data (by decide)) (fun h => (hall h).2.1)
    (wideBytes offset)
  have hlast := wideNumber_wideBytes hoffset (fun h => (hall h).2.2) []
  rw [List.append_nil] at hlast
  simp only [DirectoryRecord.withNumbers, wideNumbers, List.append_assoc, directoryRecord, hcontent,
    hdata, hlast, fullRecord]

theorem numbersLength_wideNumbers (i : Item) (offset : Nat) :
    (i.directoryRecord offset).numbersLength (decide (24 ≤ (i.wideNumbers offset).length))
      = (i.wideNumbers offset).length := by
  have hall : decide (24 ≤ (i.wideNumbers offset).length) = true → _ :=
    fun hall => le_of_length_wideNumbers (of_decide_eq_true hall)
  generalize decide (24 ≤ (i.wideNumbers offset).length) = all at hall ⊢
  rw [length_wideNumbers, DirectoryRecord.numbersLength]
  simp only [directoryRecord, List.countP_cons, List.countP_nil, isFull_min fun h => (hall h).1,
    isFull_min fun h => (hall h).2.1, isFull_min fun h => (hall h).2.2, decide_eq_true_eq]
  split_ifs <;> rfl

theorem length_wideNumbers_le (i : Item) (offset : Nat) : (i.wideNumbers offset).length ≤ 24 := by
  rw [length_wideNumbers]
  split_ifs <;> omega

theorem length_extra_le (i : Item) (offset : Nat) : (i.extra offset).length ≤ 28 := by
  dsimp only [extra]
  split
  · exact Nat.zero_le _
  · rw [List.length_append, LittleEndian.length_encodeFields]
    exact Nat.add_le_add_left (i.length_wideNumbers_le offset) 4

/-- **The numbers that were too large are put back.** -/
theorem widen_extra {offset : Nat} (h : i.Fits) (hoffset : offset < 18446744073709551616) :
    (i.directoryRecord offset).widen (i.extra offset) = some (i.fullRecord offset) := by
  have hnumbers := withNumbers_wideNumbers h hoffset
  have hlength := i.numbersLength_wideNumbers offset
  dsimp only [extra]
  split
  · -- Nothing is too large, so the record has all its numbers.
    rename_i hnone
    rw [List.isEmpty_iff.mp hnone, withNumbers_nil] at hnumbers
    rw [hnumbers]
    simp [DirectoryRecord.widen]
  · have htag : LittleEndian.decode (LittleEndian.encode 2 wideTag) = wideTag := by decide
    have hfits : (i.wideNumbers offset).length < Nat.pow 256 2 :=
      Nat.lt_of_le_of_lt (i.length_wideNumbers_le offset) (by decide)
    have hsize : LittleEndian.decode (LittleEndian.encode 2 (i.wideNumbers offset).length)
        = (i.wideNumbers offset).length := LittleEndian.decode_encode hfits
    have hsteps : ∀ t₀ t₁ l₀ l₁, LittleEndian.encode 2 wideTag = [t₀, t₁] →
        LittleEndian.encode 2 (i.wideNumbers offset).length = [l₀, l₁] →
        (i.directoryRecord offset).widen (t₀ :: t₁ :: l₀ :: l₁ :: i.wideNumbers offset)
          = some (i.fullRecord offset) := by
      intro t₀ t₁ l₀ l₁ ht hl
      rw [DirectoryRecord.widen]
      simp only [← ht, ← hl, htag, hsize, hlength, hnumbers, if_true, Nat.lt_irrefl, if_false,
        List.drop_length]
      simp [DirectoryRecord.widen]
    exact hsteps _ _ _ _ rfl rfl

/-- The record before a file is read for what it is. -/
theorem fields?_localRecord (h : i.Fits) (rest : List UInt8) :
    LittleEndian.fields? LocalRecord.widths
        (encodeRecord LocalRecord.widths i.localRecord.fields ++ rest)
      = some (i.localRecord.fields, rest) := by
  have hlength : LocalRecord.widths.length = i.localRecord.fields.length := rfl
  refine fields?_encodeRecord hlength ?_ rest
  have hflags := i.flags_lt
  have hchecksum := i.checksum_lt
  have hcontent := h.content
  have hdata := h.data
  have hname := h.name
  simp [LocalRecord.widths, LocalRecord.fields, localRecord, LocalRecord.mark, Method.code, hflags,
    hchecksum, hcontent, hdata, hname]

/-- The directory's record of a file is read for what it is. -/
theorem fields?_directoryRecord (h : i.Fits) (offset : Nat) (rest : List UInt8) :
    LittleEndian.fields? DirectoryRecord.widths
        (encodeRecord DirectoryRecord.widths (i.directoryRecord offset).fields ++ rest)
      = some ((i.directoryRecord offset).fields, rest) := by
  have hlength : DirectoryRecord.widths.length = (i.directoryRecord offset).fields.length := rfl
  refine fields?_encodeRecord hlength ?_ rest
  have hflags := i.flags_lt
  have hchecksum := i.checksum_lt
  have hname := h.name
  have hextra : (i.extra offset).length < 65536 :=
    Nat.lt_of_le_of_lt (i.length_extra_le offset) (by decide)
  have hnarrow : ∀ n, min n full32 < 4294967296 :=
    fun n => Nat.lt_succ_of_le (Nat.min_le_right n full32)
  simp [DirectoryRecord.widths, DirectoryRecord.fields, directoryRecord, DirectoryRecord.mark,
    Method.code, hflags, hchecksum, hname, hextra, hnarrow]

end Item

/-! ## The directory -/

variable {bytes : List UInt8}

/-- The data of a file begins behind its record and its name. -/
theorem dataStart?_encode {i : Item} (h : i.Fits) {start : Nat} {rest : List UInt8}
    (hbytes : bytes.drop start = i.encode ++ rest) :
    dataStart? bytes start = some (start + (LocalRecord.length + i.nameBytes.length)) := by
  have hfields := Item.fields?_localRecord h (i.nameBytes ++ i.data ++ rest)
  rw [← List.append_assoc, ← List.append_assoc, ← Item.encode, ← hbytes] at hfields
  rw [dataStart?, hfields]
  simp only [Option.bind_eq_bind, Option.bind_some, LocalRecord.ofFields?_fields, Item.localRecord,
    Nat.add_zero, Nat.add_assoc]
  rfl

theorem drop_encode {i : Item} {start : Nat} {rest : List UInt8}
    (hbytes : bytes.drop start = i.encode ++ rest) :
    bytes.drop (start + (LocalRecord.length + i.nameBytes.length)) = i.data ++ rest := by
  have hbefore : (encodeRecord LocalRecord.widths i.localRecord.fields ++ i.nameBytes).length
      = LocalRecord.length + i.nameBytes.length := by
    rw [List.length_append, length_localRecord]
  rw [← List.drop_drop, hbytes, Item.encode, List.append_assoc, ← hbefore, List.drop_left]

/-- **The directory's record of a file leads to the file.** -/
theorem memberAt?_encodeDirectory {i : Item} (h : i.Fits) {offset position : Nat}
    (hoffset : offset + i.encode.length ≤ position) (hwide : offset < 18446744073709551616)
    {rest rest' : List UInt8} (hdirectory : bytes.drop position = i.encodeDirectory offset ++ rest)
    (hfile : bytes.drop offset = i.encode ++ rest') :
    memberAt? bytes 0 position
      = some (i.member, position + (i.encodeDirectory offset).length) := by
  have hfields := Item.fields?_directoryRecord h offset (i.nameBytes ++ (i.extra offset ++ rest))
  rw [← List.append_assoc, ← List.append_assoc, ← Item.encodeDirectory, ← hdirectory] at hfields
  have hname : LittleEndian.split? (i.directoryRecord offset).nameLength
      (i.nameBytes ++ (i.extra offset ++ rest)) = some (i.nameBytes, i.extra offset ++ rest) :=
    LittleEndian.split?_append _ _
  have hextra : LittleEndian.split? (i.directoryRecord offset).extraLength (i.extra offset ++ rest)
      = some (i.extra offset, rest) := LittleEndian.split?_append _ _
  have hnothing : LittleEndian.split? (i.directoryRecord offset).remarkLength rest = some ([], rest) :=
    LittleEndian.split?_append [] rest
  have hstart := dataStart?_encode h hfile
  have hbefore : ¬position < offset + (LocalRecord.length + i.nameBytes.length) := by
    rw [Item.length_encode] at hoffset
    omega
  have hdata : (bytes.drop (offset + (LocalRecord.length + i.nameBytes.length))).take i.data.length
      = i.data := by
    rw [drop_encode hfile, List.take_left]
  have hchecksum : UInt32.ofNat (Crc32.checksum i.content).toNat = Crc32.checksum i.content :=
    UInt32.ofNat_toNat
  rw [memberAt?, hfields]
  simp only [Option.bind_eq_bind, Option.bind_some, DirectoryRecord.ofFields?_fields, hname, hextra,
    hnothing, Item.widen_extra h hwide]
  simp only [Item.fullRecord, Item.directoryRecord, Nat.zero_add, hstart, Option.bind_some,
    if_neg hbefore, hdata, hchecksum, i.isEncrypted_flags, Nat.add_zero, Item.length_encodeDirectory,
    Nat.add_assoc]
  rfl

/-- **Walking through the directory leads to every file.** -/
theorem membersAt?_encodeDirectory {items : List Item} (h : ∀ i ∈ items, i.Fits)
    {offset position : Nat} (hoffset : offset + (encodeFiles items).length ≤ position)
    (hposition : position + (encodeDirectory offset items).length < 18446744073709551616)
    {rest rest' : List UInt8}
    (hdirectory : bytes.drop position = encodeDirectory offset items ++ rest)
    (hfiles : bytes.drop offset = encodeFiles items ++ rest') :
    membersAt? bytes 0 items.length position = some (items.map Item.member) := by
  induction items generalizing offset position with
  | nil => rfl
  | cons i items ih =>
      obtain ⟨hi, hitems⟩ := List.forall_mem_cons.mp h
      rw [encodeDirectory, List.append_assoc] at hdirectory
      rw [encodeDirectory, List.length_append] at hposition
      rw [encodeFiles, List.flatMap_cons, ← encodeFiles] at hfiles hoffset
      rw [List.append_assoc] at hfiles
      rw [List.length_append] at hoffset
      have hmember : memberAt? bytes 0 position
          = some (i.member, position + (i.encodeDirectory offset).length) :=
        memberAt?_encodeDirectory hi (by omega) (by omega) hdirectory hfiles
      -- Behind the record and behind the file the same holds of what is left.
      have hdirectory' : bytes.drop (position + (i.encodeDirectory offset).length)
          = encodeDirectory (offset + i.encode.length) items ++ rest := by
        rw [← List.drop_drop, hdirectory, List.drop_left]
      have hfiles' : bytes.drop (offset + i.encode.length) = encodeFiles items ++ rest' := by
        rw [← List.drop_drop, hfiles, List.drop_left]
      have hrest := ih hitems (by omega) (by omega) hdirectory' hfiles'
      rw [List.length_cons, membersAt?, hmember]
      show (membersAt? bytes 0 items.length _).bind _ = _
      rw [hrest]
      rfl

/-! ## Marks -/

/-- The places of a mark in some bytes are some places followed by those in the last bytes. -/
theorem exists_occurrences_append (part : List UInt8) (position : Nat) (xs ys : List UInt8) :
    ∃ earlier, occurrences part position (xs ++ ys)
      = earlier ++ occurrences part (position + xs.length) ys := by
  induction xs generalizing position with
  | nil => exact ⟨[], rfl⟩
  | cons x xs ih =>
      obtain ⟨earlier, hearlier⟩ := ih (position + 1)
      have hplace : position + 1 + xs.length = position + (x :: xs).length := by
        rw [List.length_cons]
        omega
      rw [hplace] at hearlier
      rw [List.cons_append, occurrences, hearlier]
      by_cases hpart : part.isPrefixOf (x :: (xs ++ ys)) = true
      · exact ⟨position :: earlier, by rw [if_pos hpart, List.cons_append]⟩
      · exact ⟨earlier, by rw [if_neg hpart]⟩

theorem le_of_mem_occurrences {part : List UInt8} {position place : Nat}
    (h : place ∈ occurrences part position bytes) : position ≤ place := by
  induction bytes generalizing position with
  | nil => exact absurd h (by simp [occurrences])
  | cons b bs ih =>
      rw [occurrences] at h
      by_cases hpart : part.isPrefixOf (b :: bs) = true
      · rw [if_pos hpart, List.mem_cons] at h
        rcases h with rfl | h
        · exact Nat.le_refl _
        · exact Nat.le_of_succ_le (ih h)
      · rw [if_neg hpart] at h
        exact Nat.le_of_succ_le (ih h)

/-- A mark stands where bytes begin with it. -/
theorem occurrences_append {part : List UInt8} (hpart : part ≠ []) (position : Nat)
    (rest : List UInt8) :
    ∃ later, occurrences part position (part ++ rest) = position :: later ∧
      ∀ place ∈ later, position < place := by
  cases part with
  | nil => exact absurd rfl hpart
  | cons p part =>
      have hprefix : (p :: part).isPrefixOf (p :: (part ++ rest)) = true := by
        rw [List.isPrefixOf_iff_prefix]
        exact ⟨rest, rfl⟩
      refine ⟨occurrences (p :: part) (position + 1) (part ++ rest), ?_, fun place hplace => ?_⟩
      · rw [List.cons_append, occurrences, if_pos hprefix]
      · exact le_of_mem_occurrences hplace

/-- A record begins with its mark. -/
theorem exists_encodeRecord (mark : Nat) (widths fields : List Nat) :
    ∃ rest, encodeRecord (4 :: widths) (mark :: fields) = markBytes mark ++ rest :=
  ⟨_, rfl⟩

theorem markBytes_ne_nil (mark : Nat) : markBytes mark ≠ [] :=
  List.cons_ne_nil _ _

/-! ## The whole archive -/

variable {items : List Item}

/-- The directory of an archive begins with the mark of its first record. -/
theorem exists_encodeDirectory (hne : items ≠ []) (offset : Nat) :
    ∃ rest, encodeDirectory offset items = markBytes DirectoryRecord.mark ++ rest := by
  cases items with
  | nil => exact absurd rfl hne
  | cons i items =>
      obtain ⟨tail, htail⟩ : ∃ tail, encodeRecord DirectoryRecord.widths
          (i.directoryRecord offset).fields = markBytes DirectoryRecord.mark ++ tail :=
        exists_encodeRecord _ _ _
      rw [encodeDirectory, Item.encodeDirectory, htail, List.append_assoc, List.append_assoc]
      exact ⟨_, rfl⟩

/-- Where the directory of an archive ends. -/
def directoryEnd (items : List Item) : Nat :=
  (encodeFiles items).length + (encodeDirectory 0 items).length

/-- Where the closing record of an archive begins. -/
def closingPlace (items : List Item) : Nat :=
  directoryEnd items + (encodeWide items).length

/-- The closing record of an archive as bytes. -/
def encodeClosing (items : List Item) : List UInt8 :=
  encodeRecord ClosingRecord.widths (closingRecord items).fields

theorem encode_eq (items : List Item) :
    encode items
      = encodeFiles items ++ (encodeDirectory 0 items ++ (encodeWide items ++ encodeClosing items)) := by
  rw [encode, List.append_assoc, List.append_assoc]
  rfl

theorem length_encode (items : List Item) : (encode items).length = closingPlace items + 22 := by
  rw [encode, List.length_append, List.length_append, List.length_append, length_closingRecord]
  rfl

theorem drop_directory (items : List Item) :
    (encode items).drop (encodeFiles items).length
      = encodeDirectory 0 items ++ (encodeWide items ++ encodeClosing items) := by
  rw [encode_eq, List.drop_left]

theorem drop_directoryEnd (items : List Item) :
    (encode items).drop (directoryEnd items) = encodeWide items ++ encodeClosing items := by
  rw [directoryEnd, ← List.drop_drop, drop_directory, List.drop_left]

theorem drop_closingPlace (items : List Item) :
    (encode items).drop (closingPlace items) = encodeClosing items := by
  rw [closingPlace, ← List.drop_drop, drop_directoryEnd, List.drop_left]

/-- What stands between two places is what stands from the first one on, as far as the second one. -/
theorem drop_take_of_drop {start : Nat} {xs rest : List UInt8} (h : bytes.drop start = xs ++ rest) :
    (bytes.take (start + xs.length)).drop start = xs := by
  rw [List.drop_take, Nat.add_sub_cancel_left, h, List.take_left]

/-- The directory leads to all files. -/
theorem membersAt?_encode (hlength : (encode items).length < 18446744073709551616)
    (hfits : ∀ i ∈ items, i.Fits) :
    membersAt? (encode items) 0 items.length (encodeFiles items).length
      = some (items.map Item.member) := by
  rw [length_encode, closingPlace, directoryEnd] at hlength
  have hfiles : (encode items).drop 0
      = encodeFiles items ++ (encodeDirectory 0 items ++ (encodeWide items ++ encodeClosing items)) := by
    rw [encode_eq, List.drop_zero]
  exact membersAt?_encodeDirectory hfits (by omega) (by omega) (drop_directory items) hfiles

/-! ### Without a wide closing record -/

/-- A closing record whose numbers are not too large leads to all files, whatever stands between it and
    the directory. -/
theorem openNarrow?_encode (hlength : (encode items).length < 18446744073709551616)
    (hfits : ∀ i ∈ items, i.Fits) (hnarrow : (closingRecord items).isFull = false) :
    openNarrow? (encode items) (closingRecord items) (closingPlace items)
      = some ⟨items.map Item.member⟩ := by
  simp only [ClosingRecord.isFull, closingRecord, Bool.or_eq_false_iff, beq_eq_false_iff_ne] at hnarrow
  have hcount : min items.length full16 = items.length := by omega
  have hoffset : min (encodeFiles items).length full32 = (encodeFiles items).length := by omega
  have hmembers := membersAt?_encode hlength hfits
  unfold openNarrow?
  simp only [closingRecord, hcount, hoffset]
  by_cases hne : items = []
  · subst hne
    rfl
  · have hnone : ¬items.length = 0 := fun h => hne (List.length_eq_zero_iff.mp h)
    -- What stands behind the files begins with the mark of the directory.
    have hbetween : ((encode items).take (closingPlace items)).drop (encodeFiles items).length
        = encodeDirectory 0 items ++ encodeWide items := by
      have hrest := drop_directory items
      rw [← List.append_assoc] at hrest
      have hplace : closingPlace items
          = (encodeFiles items).length + (encodeDirectory 0 items ++ encodeWide items).length := by
        rw [closingPlace, directoryEnd, List.length_append, Nat.add_assoc]
      rw [hplace, drop_take_of_drop hrest]
    obtain ⟨rest, hmark⟩ := exists_encodeDirectory hne 0
    obtain ⟨later, hplaces, -⟩ := occurrences_append (markBytes_ne_nil DirectoryRecord.mark)
      (encodeFiles items).length (rest ++ encodeWide items)
    rw [← List.append_assoc, ← hmark] at hplaces
    simp only [hbetween, hplaces, List.head?_cons, Option.bind_eq_bind, Option.bind_some, Nat.sub_self,
      hmembers, if_neg hnone]
    rfl

/-! ### With a wide closing record -/

/-- The wide closing record of an archive as bytes. -/
def encodeWideClosing (items : List Item) : List UInt8 :=
  encodeRecord WideClosingRecord.widths (wideClosingRecord items).fields

theorem length_encodeWideClosing (items : List Item) : (encodeWideClosing items).length = 56 := by
  have hlength : WideClosingRecord.widths.length = (wideClosingRecord items).fields.length := rfl
  rw [encodeWideClosing, length_encodeRecord hlength]
  rfl

theorem encodeWide_eq (hwide : needsWide items = true) :
    encodeWide items
      = encodeWideClosing items ++ encodeRecord WideLocator.widths (wideLocator items).fields := by
  rw [encodeWide, if_pos hwide]
  rfl

theorem closingPlace_eq (hwide : needsWide items = true) :
    closingPlace items = directoryEnd items + 56 + WideLocator.length := by
  have hlength : WideLocator.widths.length = (wideLocator items).fields.length := rfl
  rw [closingPlace, encodeWide_eq hwide, List.length_append, length_encodeWideClosing,
    length_encodeRecord hlength, Nat.add_assoc]
  rfl

/-- A directory takes a record for each file. -/
theorem le_length_encodeDirectory (offset : Nat) (items : List Item) :
    items.length * DirectoryRecord.length ≤ (encodeDirectory offset items).length := by
  induction items generalizing offset with
  | nil => simp
  | cons i items ih =>
      have hrest := ih (offset + i.encode.length)
      rw [encodeDirectory, List.length_append, Item.length_encodeDirectory, List.length_cons,
        Nat.add_one_mul]
      omega

/-- The locator stands right before the closing record. -/
theorem locatorAt?_encode (hlength : (encode items).length < 18446744073709551616)
    (hwide : needsWide items = true) :
    locatorAt? (encode items) (closingPlace items) = some (wideLocator items) := by
  have hbounds := hlength
  rw [length_encode, closingPlace_eq hwide] at hbounds
  have hplace : (encode items).drop (directoryEnd items + 56)
      = encodeRecord WideLocator.widths (wideLocator items).fields ++ encodeClosing items := by
    rw [← List.drop_drop, drop_directoryEnd, encodeWide_eq hwide, List.append_assoc,
      ← length_encodeWideClosing items, List.drop_left]
  have hfields : LittleEndian.fields? WideLocator.widths ((encode items).drop (directoryEnd items + 56))
      = some ((wideLocator items).fields, encodeClosing items) := by
    rw [hplace]
    have hlengths : WideLocator.widths.length = (wideLocator items).fields.length := rfl
    refine fields?_encodeRecord hlengths ?_ _
    have hoffset : directoryEnd items < 18446744073709551616 := by omega
    simpa [WideLocator.widths, WideLocator.fields, wideLocator, WideLocator.mark, directoryEnd]
      using hoffset
  rw [locatorAt?, closingPlace_eq hwide, if_neg (by omega), Nat.add_sub_cancel]
  simp only [hfields, Option.bind_eq_bind, Option.bind_some, WideLocator.ofFields?_fields]

/-- The wide closing record stands where the directory ends. -/
theorem wideAt?_encode (hlength : (encode items).length < 18446744073709551616)
    (hwide : needsWide items = true) :
    wideAt? (encode items) (wideLocator items) (directoryEnd items + 56) (directoryEnd items)
      = some (wideClosingRecord items) := by
  rw [length_encode, closingPlace_eq hwide] at hlength
  have hdirectory : items.length * 46 ≤ (encodeDirectory 0 items).length :=
    le_length_encodeDirectory 0 items
  have hfields : LittleEndian.fields? WideClosingRecord.widths ((encode items).drop (directoryEnd items))
      = some ((wideClosingRecord items).fields,
          encodeRecord WideLocator.widths (wideLocator items).fields ++ encodeClosing items) := by
    rw [drop_directoryEnd, encodeWide_eq hwide, List.append_assoc]
    have hlengths : WideClosingRecord.widths.length = (wideClosingRecord items).fields.length := rfl
    refine fields?_encodeRecord hlengths ?_ _
    rw [directoryEnd] at hlength
    have hcount : items.length < 18446744073709551616 := by omega
    have hsize : (encodeDirectory 0 items).length < 18446744073709551616 := by omega
    have hoffset : (encodeFiles items).length < 18446744073709551616 := by omega
    simp [WideClosingRecord.widths, WideClosingRecord.fields, wideClosingRecord, WideClosingRecord.mark,
      WideClosingRecord.length, WideClosingRecord.headLength, hcount, hsize, hoffset]
  rw [wideAt?, hfields]
  simp only [Option.bind_eq_bind, Option.bind_some, WideClosingRecord.ofFields?_fields]
  exact if_pos ⟨rfl, Nat.le_refl _, rfl, Nat.add_le_add_left hdirectory _⟩

/-- The locator leads to all files. -/
theorem openWide?_encode (hlength : (encode items).length < 18446744073709551616)
    (hfits : ∀ i ∈ items, i.Fits) (hwide : needsWide items = true) :
    openWide? (encode items) (wideLocator items) (directoryEnd items + 56)
      = some ⟨items.map Item.member⟩ := by
  have hmembers := membersAt?_encode hlength hfits
  have hrecord := wideAt?_encode hlength hwide
  have hbefore : ((encode items).take (directoryEnd items + 56)).drop (directoryEnd items)
      = encodeWideClosing items := by
    have hrest := drop_directoryEnd items
    rw [encodeWide_eq hwide, List.append_assoc] at hrest
    rw [← length_encodeWideClosing items, drop_take_of_drop hrest]
  obtain ⟨tail, htail⟩ : ∃ tail, encodeWideClosing items = markBytes WideClosingRecord.mark ++ tail :=
    exists_encodeRecord _ _ _
  obtain ⟨later, hplaces, -⟩ := occurrences_append (markBytes_ne_nil WideClosingRecord.mark)
    (directoryEnd items) tail
  rw [← htail, ← hbefore] at hplaces
  have hlocator : (wideLocator items).offset = directoryEnd items := rfl
  have hinside : ¬(directoryEnd items + 56 ≤ directoryEnd items ∨ 1 < (wideLocator items).volumes) := by
    have hvolumes : (wideLocator items).volumes = 1 := rfl
    omega
  rw [openWide?, hlocator, if_neg hinside]
  have hcoherent : ¬((wideClosingRecord items).count < (wideClosingRecord items).countHere ∨
      (wideClosingRecord items).madeBy < (wideClosingRecord items).needed ∨
      (wideClosingRecord items).volume ≠ (wideClosingRecord items).directoryVolume) := by
    simp [wideClosingRecord]
  simp only [hplaces, List.findSome?_cons, hrecord, Option.map_some, Option.bind_eq_bind, Option.bind_some,
    Nat.sub_self, Nat.zero_add, if_neg hcoherent]
  exact congrArg (Option.bind · _) hmembers

/-! ### With either -/

/-- The closing record leads to all files. -/
theorem openAt?_encode (hlength : (encode items).length < 18446744073709551616)
    (hfits : ∀ i ∈ items, i.Fits) :
    openAt? (encode items) (closingPlace items) = some ⟨items.map Item.member⟩ := by
  have hfields : LittleEndian.fields? ClosingRecord.widths ((encode items).drop (closingPlace items))
      = some ((closingRecord items).fields, []) := by
    rw [drop_closingPlace, encodeClosing, ← List.append_nil (encodeRecord _ _)]
    have hlengths : ClosingRecord.widths.length = (closingRecord items).fields.length := rfl
    refine fields?_encodeRecord hlengths ?_ []
    have hnarrow16 : ∀ n, min n full16 < 65536 :=
      fun n => Nat.lt_succ_of_le (Nat.min_le_right n full16)
    have hnarrow32 : ∀ n, min n full32 < 4294967296 :=
      fun n => Nat.lt_succ_of_le (Nat.min_le_right n full32)
    simp [ClosingRecord.widths, ClosingRecord.fields, closingRecord, ClosingRecord.mark, hnarrow16,
      hnarrow32]
  rw [openAt?, hfields]
  have hremark : LittleEndian.split? (closingRecord items).remarkLength [] = some ([], []) := rfl
  simp only [Option.bind_eq_bind, Option.bind_some, ClosingRecord.ofFields?_fields, hremark]
  cases hfull : (closingRecord items).isFull with
  | false => exact openNarrow?_encode hlength hfits hfull
  | true =>
      have hwide : needsWide items = true := by
        simp only [ClosingRecord.isFull, closingRecord, Bool.or_eq_true, beq_iff_eq] at hfull
        simp only [needsWide, Bool.or_eq_true, decide_eq_true_eq]
        omega
      have hplace : closingPlace items - WideLocator.length = directoryEnd items + 56 := by
        rw [closingPlace_eq hwide, Nat.add_sub_cancel]
      rw [if_pos rfl, locatorAt?_encode hlength hwide]
      simp only [hplace]
      exact openWide?_encode hlength hfits hwide

/-- **An archive that was written is opened with all its files.** -/
theorem ofBytes?_encode (hlength : (encode items).length < 18446744073709551616)
    (hfits : ∀ i ∈ items, i.Fits) :
    Archive.ofBytes? (encode items) = some ⟨items.map Item.member⟩ := by
  have hopen := openAt?_encode hlength hfits
  -- The last places of the mark are the beginning of the closing record and places inside it.
  obtain ⟨earlier, hearlier⟩ := exists_occurrences_append (markBytes ClosingRecord.mark) 0
    (encodeFiles items ++ encodeDirectory 0 items ++ encodeWide items) (encodeClosing items)
  obtain ⟨tail, htail⟩ : ∃ tail, encodeClosing items = markBytes ClosingRecord.mark ++ tail :=
    exists_encodeRecord _ _ _
  obtain ⟨later, hlater, hbehind⟩ := occurrences_append (markBytes_ne_nil ClosingRecord.mark)
    (closingPlace items) tail
  have hplaces : occurrences (markBytes ClosingRecord.mark) 0 (encode items)
      = earlier ++ closingPlace items :: later := by
    rw [encode, ← encodeClosing, hearlier, htail, List.length_append, List.length_append, Nat.zero_add]
    exact congrArg _ hlater
  have hshort : ∀ place ∈ later.reverse, openAt? (encode items) place = none := by
    intro place hplace
    have hmore : closingPlace items < place := hbehind place (List.mem_reverse.mp hplace)
    have hfew : ((encode items).drop place).length < ClosingRecord.widths.sum := by
      have hsum : ClosingRecord.widths.sum = 22 := rfl
      rw [List.length_drop, length_encode, hsum]
      omega
    rw [openAt?, LittleEndian.fields?_eq_none hfew]
    rfl
  rw [Archive.ofBytes?, hplaces, List.reverse_append, List.reverse_cons, List.append_assoc,
    List.findSome?_append, List.findSome?_eq_none_iff.mpr hshort, Option.none_or,
    List.singleton_append, List.findSome?_cons, hopen]

/-- An archive is written if each file fits into its records. -/
theorem write?_eq_some_iff {bytes : List UInt8} :
    write? items = some bytes ↔
      bytes = encode items ∧ (encode items).length < 18446744073709551616 ∧ ∀ i ∈ items, i.Fits := by
  have hiff : (∀ i ∈ items, i.nameBytes.length < UInt16.size ∧ i.content.length < UInt32.size ∧
      i.data.length < UInt32.size) ↔ ∀ i ∈ items, i.Fits :=
    forall₂_congr fun i _ => Item.fits_iff.symm
  dsimp only [write?]
  rw [← hiff]
  by_cases hfits : (encode items).length < UInt64.size ∧ ∀ i ∈ items, i.nameBytes.length < UInt16.size ∧
      i.content.length < UInt32.size ∧ i.data.length < UInt32.size
  · rw [if_pos hfits, Option.some.injEq, eq_comm]
    exact ⟨fun h => ⟨h, hfits⟩, fun h => h.1⟩
  · rw [if_neg hfits]
    exact ⟨fun h => (nomatch h), fun h => absurd h.2 hfits⟩

theorem length_encodeFiles_le (hfits : ∀ i ∈ items, i.Fits) :
    (encodeFiles items).length ≤ items.length * 4295032862 := by
  induction items with
  | nil => exact Nat.le_refl 0
  | cons i items ih =>
      obtain ⟨hi, hitems⟩ := List.forall_mem_cons.mp hfits
      have hrest := ih hitems
      have hname := hi.name
      have hdata := hi.data
      have hrecord : LocalRecord.length = 30 := rfl
      rw [encodeFiles, List.flatMap_cons, ← encodeFiles, List.length_append, Item.length_encode,
        List.length_cons]
      omega

theorem length_encodeDirectory_le (hfits : ∀ i ∈ items, i.Fits) (offset : Nat) :
    (encodeDirectory offset items).length ≤ items.length * 65610 := by
  induction items generalizing offset with
  | nil => exact Nat.le_refl 0
  | cons i items ih =>
      obtain ⟨hi, hitems⟩ := List.forall_mem_cons.mp hfits
      have hrest := ih hitems (offset + i.encode.length)
      have hname := hi.name
      have hextra := i.length_extra_le offset
      have hrecord : DirectoryRecord.length = 46 := rfl
      rw [encodeDirectory, List.length_append, Item.length_encodeDirectory, List.length_cons]
      omega

/-- Few files that fit are never too much for a whole archive. -/
theorem length_encode_lt (hfits : ∀ i ∈ items, i.Fits) (hcount : items.length < 65536) :
    (encode items).length < 18446744073709551616 := by
  have hfiles := length_encodeFiles_le hfits
  have hdirectory := length_encodeDirectory_le hfits 0
  have hwide : (encodeWide items).length ≤ 76 := by
    cases hneeds : needsWide items with
    | false =>
        rw [encodeWide, hneeds]
        exact Nat.zero_le _
    | true =>
        have hplace := closingPlace_eq hneeds
        have hlocator : WideLocator.length = 20 := rfl
        rw [closingPlace] at hplace
        omega
  rw [length_encode, closingPlace, directoryEnd]
  omega

/-- **What was written is opened.** -/
theorem ofBytes?_of_write? {bytes : List UInt8} (h : write? items = some bytes) :
    Archive.ofBytes? bytes = some ⟨items.map Item.member⟩ := by
  obtain ⟨rfl, hlength, hfits⟩ := write?_eq_some_iff.mp h
  exact ofBytes?_encode hlength hfits

/-! ## Contents of files -/

/-- **The bytes of a member are those that were put in.** -/
theorem content_member (i : Item) : i.member.content = .ok i.content := by
  have hinflate : Deflate.inflate i.member.data = (i.content, none) :=
    Deflate.inflate_store i.content
  have hmethod : i.member.method = .deflated := rfl
  have hchecksum : Crc32.checksum i.content = i.member.checksum := rfl
  rw [Member.content, hmethod]
  simp only [hinflate, Member.checked]
  rw [if_pos hchecksum]

theorem isReadable_member (i : Item) : i.member.isReadable = true := rfl

end Archive

end Blockwork
