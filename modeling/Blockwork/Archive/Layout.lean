import Blockwork.Bytes.LittleEndian

/-!
# `Blockwork.Archive.Layout`: the records of an archive

An archive is the files one after the other, each behind a short record, then a directory with one
record for each file, then a closing record that says where the directory is. All records are
numbers of fixed widths, then names and remarks.

A number that is too large for its field is kept in a wider one elsewhere, and its own field has all
bits set. For a file that is an extra field behind its name in the directory; for the closing record it
is another one, the wide closing record, and between the two a locator says where that begins.

## Contents
- `isEncrypted`, `isUtf8`, the flags of a file.
- `full16`, `full32` and `wideTag`, for numbers that are too large.
- `LocalRecord`, `DirectoryRecord`, `WideClosingRecord`, `WideLocator`, `ClosingRecord`, each with its
  `mark`, `widths` and `length` and with `ofFields?` and `fields`.
-/

namespace Blockwork.Archive

/-! ## Flags -/

/-- Whether the flags of a record say that the file is encrypted. -/
def isEncrypted (flags : Nat) : Bool :=
  flags.testBit 0

/-- Whether the flags of a record say that the name is UTF-8. -/
def isUtf8 (flags : Nat) : Bool :=
  flags.testBit 11

/-- The flag that says that the name is UTF-8. -/
def utf8Flag : Nat := 2048

/-! ## Numbers that are too large -/

/-- A field of 16 bits that are all set. -/
def full16 : Nat := 65535

/-- A field of 32 bits that are all set. -/
def full32 : Nat := 4294967295

/-- The tag of an extra field with the numbers of a file that are too large. -/
def wideTag : Nat := 1

/-! ## Before a file -/

/-- The record before a file. -/
structure LocalRecord where
  flags : Nat
  method : Nat
  checksum : Nat
  compressedSize : Nat
  size : Nat
  nameLength : Nat
  extraLength : Nat
  deriving DecidableEq, Repr

namespace LocalRecord

/-- The mark at the beginning. -/
def mark : Nat := 0x04034b50

/-- The widths of the fields. -/
def widths : List Nat :=
  [4, 2, 2, 2, 2, 2, 4, 4, 4, 2, 2]

/-- The bytes of the fields. -/
def length : Nat := 30

/-- The record with given fields, if they begin with the mark. -/
def ofFields? : List Nat → Option LocalRecord
  | [m, _, flags, method, _, _, checksum, compressedSize, size, nameLength, extraLength] =>
    if m = mark then
      some { flags, method, checksum, compressedSize, size, nameLength, extraLength }
    else none
  | _ => none

/-- The fields; the date is the first day of 1980. -/
def fields (r : LocalRecord) : List Nat :=
  [mark, 20, r.flags, r.method, 0, 33, r.checksum, r.compressedSize, r.size, r.nameLength,
    r.extraLength]

theorem ofFields?_fields (r : LocalRecord) : ofFields? r.fields = some r := by
  simp [fields, ofFields?]

end LocalRecord

/-! ## In the directory -/

/-- The directory's record of a file. -/
structure DirectoryRecord where
  flags : Nat
  method : Nat
  checksum : Nat
  compressedSize : Nat
  size : Nat
  nameLength : Nat
  extraLength : Nat
  remarkLength : Nat
  /-- Where the record before the file begins. -/
  offset : Nat
  deriving DecidableEq, Repr

namespace DirectoryRecord

/-- The mark at the beginning. -/
def mark : Nat := 0x02014b50

/-- The widths of the fields. -/
def widths : List Nat :=
  [4, 2, 2, 2, 2, 2, 2, 4, 4, 4, 2, 2, 2, 2, 2, 4, 4]

/-- The bytes of the fields. -/
def length : Nat := 46

/-- The record with given fields, if they begin with the mark. -/
def ofFields? : List Nat → Option DirectoryRecord
  | [m, _, _, flags, method, _, _, checksum, compressedSize, size, nameLength, extraLength,
      remarkLength, _, _, _, offset] =>
    if m = mark then
      some
        { flags, method, checksum, compressedSize, size, nameLength, extraLength, remarkLength
          offset }
    else none
  | _ => none

/-- The fields; the date is the first day of 1980. -/
def fields (r : DirectoryRecord) : List Nat :=
  [mark, 20, 20, r.flags, r.method, 0, 33, r.checksum, r.compressedSize, r.size, r.nameLength,
    r.extraLength, r.remarkLength, 0, 0, 0, r.offset]

theorem ofFields?_fields (r : DirectoryRecord) : ofFields? r.fields = some r := by
  simp [fields, ofFields?]

end DirectoryRecord

/-! ## At the end -/

/-- The closing record with wide numbers. -/
structure WideClosingRecord where
  /-- How many bytes of the record follow this field. -/
  extent : Nat
  /-- The version of the writer. -/
  madeBy : Nat
  /-- The version that a reader needs. -/
  needed : Nat
  /-- The number of this volume. -/
  volume : Nat
  /-- The number of the volume on which the directory begins. -/
  directoryVolume : Nat
  /-- How many files the directory lists on this volume. -/
  countHere : Nat
  /-- How many files the directory lists. -/
  count : Nat
  directorySize : Nat
  /-- Where the directory begins. -/
  directoryOffset : Nat
  deriving DecidableEq, Repr

namespace WideClosingRecord

/-- The mark at the beginning. -/
def mark : Nat := 0x06064b50

/-- The widths of the fields. -/
def widths : List Nat :=
  [4, 8, 2, 2, 4, 4, 8, 8, 8, 8]

/-- The bytes of the fields. -/
def length : Nat := 56

/-- The bytes of the mark and of the field that says how many follow. -/
def headLength : Nat := 12

/-- The record with given fields, if they begin with the mark. -/
def ofFields? : List Nat → Option WideClosingRecord
  | [m, extent, madeBy, needed, volume, directoryVolume, countHere, count, directorySize,
      directoryOffset] =>
    if m = mark then
      some
        { extent, madeBy, needed, volume, directoryVolume, countHere, count, directorySize
          directoryOffset }
    else none
  | _ => none

/-- The fields. -/
def fields (r : WideClosingRecord) : List Nat :=
  [mark, r.extent, r.madeBy, r.needed, r.volume, r.directoryVolume, r.countHere, r.count,
    r.directorySize, r.directoryOffset]

theorem ofFields?_fields (r : WideClosingRecord) : ofFields? r.fields = some r := by
  simp [fields, ofFields?]

end WideClosingRecord

/-- The record that says where the wide closing record is. -/
structure WideLocator where
  /-- The number of the volume with the directory. -/
  volume : Nat
  /-- Where the wide closing record begins. -/
  offset : Nat
  /-- How many volumes there are. -/
  volumes : Nat
  deriving DecidableEq, Repr

namespace WideLocator

/-- The mark at the beginning. -/
def mark : Nat := 0x07064b50

/-- The widths of the fields. -/
def widths : List Nat :=
  [4, 4, 8, 4]

/-- The bytes of the fields. -/
def length : Nat := 20

/-- The record with given fields, if they begin with the mark. -/
def ofFields? : List Nat → Option WideLocator
  | [m, volume, offset, volumes] => if m = mark then some { volume, offset, volumes } else none
  | _ => none

/-- The fields. -/
def fields (r : WideLocator) : List Nat :=
  [mark, r.volume, r.offset, r.volumes]

theorem ofFields?_fields (r : WideLocator) : ofFields? r.fields = some r := by
  simp [fields, ofFields?]

end WideLocator

/-- The closing record. -/
structure ClosingRecord where
  /-- The number of this volume. -/
  volume : Nat
  /-- The number of the volume on which the directory begins. -/
  directoryVolume : Nat
  /-- How many files the directory lists. -/
  count : Nat
  directorySize : Nat
  /-- Where the directory begins. -/
  directoryOffset : Nat
  remarkLength : Nat
  deriving DecidableEq, Repr

namespace ClosingRecord

/-- The mark at the beginning. -/
def mark : Nat := 0x06054b50

/-- The widths of the fields. -/
def widths : List Nat :=
  [4, 2, 2, 2, 2, 4, 4, 2]

/-- Whether a number of the record is too large for it. -/
def isFull (r : ClosingRecord) : Bool :=
  r.count == full16 || r.directoryOffset == full32

/-- The record with given fields, if they begin with the mark. -/
def ofFields? : List Nat → Option ClosingRecord
  | [m, volume, directoryVolume, count, _, directorySize, directoryOffset, remarkLength] =>
    if m = mark then
      some { volume, directoryVolume, count, directorySize, directoryOffset, remarkLength }
    else none
  | _ => none

/-- The fields; all files are on this volume. -/
def fields (r : ClosingRecord) : List Nat :=
  [mark, r.volume, r.directoryVolume, r.count, r.count, r.directorySize, r.directoryOffset,
    r.remarkLength]

theorem ofFields?_fields (r : ClosingRecord) : ofFields? r.fields = some r := by
  simp [fields, ofFields?]

end ClosingRecord

/-- Fields as bytes. -/
def encodeRecord (widths fields : List Nat) : List UInt8 :=
  LittleEndian.encodeFields (widths.zip fields)

end Blockwork.Archive
