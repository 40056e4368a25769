import Blockwork.Archive.Layout
import Blockwork.Archive.Member
import Blockwork.Deflate.Stored
import Blockwork.Text.Utf8

/-!
# `Blockwork.Archive.Writer`: making an archive

## Contents
- `Item`, a file to be put in, with its records.
- `needsWide` and `encodeWide`, for archives with numbers that are too large.
- `Archive.encode`, the bytes of an archive, and `Archive.write?`, which refuses what is too large.
-/

namespace Blockwork.Archive

/-- A file to be put into an archive. -/
structure Item where
  name : String
  content : List UInt8

namespace Item

/-- The bytes as they are kept. -/
def data (i : Item) : List UInt8 :=
  Deflate.store i.content

/-- The bytes of the name. -/
def nameBytes (i : Item) : List UInt8 :=
  Utf8.encode i.name

/-- The flags: a name that is not ASCII is marked as UTF-8. -/
def flags (i : Item) : Nat :=
  if i.nameBytes.all (· < 128) then 0 else utf8Flag

/-- The bytes that a number takes in an extra field. Only one that is too large for its own field takes
any. -/
def wideBytes (n : Nat) : List UInt8 :=
  if full32 ≤ n then LittleEndian.encode 8 n else []

/-- The numbers of the file that begins at `offset` that are too large for the directory's record. -/
def wideNumbers (i : Item) (offset : Nat) : List UInt8 :=
  wideBytes i.content.length ++ wideBytes i.data.length ++ wideBytes offset

/-- The extra field of the file in the directory. -/
def extra (i : Item) (offset : Nat) : List UInt8 :=
  let numbers := i.wideNumbers offset
  if numbers.isEmpty then []
  else LittleEndian.encodeFields [(2, wideTag), (2, numbers.length)] ++ numbers

/-- The record before the file. -/
def localRecord (i : Item) : LocalRecord :=
  { flags := i.flags
    method := Method.deflated.code
    checksum := (Crc32.checksum i.content).toNat
    compressedSize := i.data.length
    size := i.content.length
    nameLength := i.nameBytes.length
    extraLength := 0 }

/-- The directory's record of the file that begins at `offset`. -/
def directoryRecord (i : Item) (offset : Nat) : DirectoryRecord :=
  { flags := i.flags
    method := Method.deflated.code
    checksum := (Crc32.checksum i.content).toNat
    compressedSize := min i.data.length full32
    size := min i.content.length full32
    nameLength := i.nameBytes.length
    extraLength := (i.extra offset).length
    remarkLength := 0
    offset := min offset full32 }

/-- The file with the record before it. -/
def encode (i : Item) : List UInt8 :=
  encodeRecord LocalRecord.widths i.localRecord.fields ++ i.nameBytes ++ i.data

/-- What the directory says of the file. -/
def encodeDirectory (i : Item) (offset : Nat) : List UInt8 :=
  encodeRecord DirectoryRecord.widths (i.directoryRecord offset).fields ++ i.nameBytes ++
    i.extra offset

end Item

/-- The directory of files of which the first begins at `offset`. -/
def encodeDirectory : Nat → List Item → List UInt8
  | _, [] => []
  | offset, i :: items => i.encodeDirectory offset ++ encodeDirectory (offset + i.encode.length) items

/-- The bytes of the files, one after the other. -/
def encodeFiles (items : List Item) : List UInt8 :=
  items.flatMap Item.encode

/-- Whether a number of the closing record is too large for it. -/
def needsWide (items : List Item) : Bool :=
  full16 ≤ items.length || full32 ≤ (encodeDirectory 0 items).length ||
    full32 ≤ (encodeFiles items).length

/-- The wide closing record of an archive. -/
def wideClosingRecord (items : List Item) : WideClosingRecord :=
  { extent := WideClosingRecord.length - WideClosingRecord.headLength
    madeBy := 45
    needed := 45
    volume := 0
    directoryVolume := 0
    countHere := items.length
    count := items.length
    directorySize := (encodeDirectory 0 items).length
    directoryOffset := (encodeFiles items).length }

/-- The record that says where the wide closing record of an archive is. -/
def wideLocator (items : List Item) : WideLocator :=
  { volume := 0
    offset := (encodeFiles items).length + (encodeDirectory 0 items).length
    volumes := 1 }

/-- What stands between the directory and the closing record: the wide closing record and its locator,
if they are needed. -/
def encodeWide (items : List Item) : List UInt8 :=
  if needsWide items then
    encodeRecord WideClosingRecord.widths (wideClosingRecord items).fields ++
      encodeRecord WideLocator.widths (wideLocator items).fields
  else []

/-- The closing record of an archive. -/
def closingRecord (items : List Item) : ClosingRecord :=
  { volume := 0
    directoryVolume := 0
    count := min items.length full16
    directorySize := min (encodeDirectory 0 items).length full32
    directoryOffset := min (encodeFiles items).length full32
    remarkLength := 0 }

/-- The bytes of an archive. -/
def encode (items : List Item) : List UInt8 :=
  encodeFiles items ++ encodeDirectory 0 items ++ encodeWide items ++
    encodeRecord ClosingRecord.widths (closingRecord items).fields

/-- The bytes of an archive. The size of each file has to fit into 32 bits, before and after it is
compressed, and the length of its name into 16; the whole archive may be as large as 64 bits count. -/
def write? (items : List Item) : Option (List UInt8) :=
  let bytes := encode items
  if bytes.length < UInt64.size ∧ ∀ i ∈ items,
      i.nameBytes.length < UInt16.size ∧ i.content.length < UInt32.size ∧
        i.data.length < UInt32.size then
    some bytes
  else none

end Blockwork.Archive
