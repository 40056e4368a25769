import Blockwork.Archive.Layout
import Blockwork.Archive.Member
import Blockwork.Archive.Name

/-!
# `Blockwork.Archive.Reader`: opening an archive

The closing record is looked for from the end. Bytes before the archive move everything that the
records point at; how far is seen from where the directory really begins.

## Contents
- `occurrences`, the places of a mark.
- `DirectoryRecord.widen`, a record with the numbers that were too large for it.
- `memberAt?`, a file of the directory; `membersAt?`, all of them.
- `openWide?`, the archive that a wide closing record describes; `openAt?`, the one that a closing
  record describes.
- `Archive.ofBytes?`.
-/

namespace Blockwork

namespace Archive

/-- The places, counted from `position`, at which `part` occurs in some bytes. -/
def occurrences (part : List UInt8) (position : Nat) : List UInt8 → List Nat
  | [] => []
  | b :: bs =>
    let later := occurrences part (position + 1) bs
    if part.isPrefixOf (b :: bs) then position :: later else later

/-- A mark as bytes. -/
def markBytes (mark : Nat) : List UInt8 :=
  LittleEndian.encode 4 mark

/-- Where the bytes of a file begin whose record begins at `start`. -/
def dataStart? (bytes : List UInt8) (start : Nat) : Option Nat := do
  let (fields, _) ← LittleEndian.fields? LocalRecord.widths (bytes.drop start)
  let record ← LocalRecord.ofFields? fields
  return start + LocalRecord.length + record.nameLength + record.extraLength

/-- The number that replaces `n` and what follows it: the next eight bytes, if `n` has all bits set or all
numbers are there. If there are too few bytes, `n` stays. -/
def wideNumber (all : Bool) (n : Nat) (bytes : List UInt8) : Nat × List UInt8 :=
  if all || n == full32 then
    match LittleEndian.split? 8 bytes with
    | some (field, rest) => (LittleEndian.decode field, rest)
    | none => (n, [])
  else (n, bytes)

namespace DirectoryRecord

/-- The record with numbers from an extra field. -/
def withNumbers (all : Bool) (r : DirectoryRecord) (bytes : List UInt8) : DirectoryRecord :=
  let (size, bytes) := wideNumber all r.size bytes
  let (compressedSize, bytes) := wideNumber all r.compressedSize bytes
  let (offset, _) := wideNumber all r.offset bytes
  { r with size, compressedSize, offset }

/-- How many bytes the numbers of an extra field take. -/
def numbersLength (all : Bool) (r : DirectoryRecord) : Nat :=
  8 * [r.size, r.compressedSize, r.offset].countP fun n => all || n == full32

/-- The record with the numbers of its extra fields. A field of 24 bytes has all three numbers, a
shorter one those that are too large. A field may not be shorter than its numbers; fields that end
early are passed over. -/
def widen (r : DirectoryRecord) : List UInt8 → Option DirectoryRecord
  | t₀ :: t₁ :: l₀ :: l₁ :: rest =>
    let length := LittleEndian.decode [l₀, l₁]
    if LittleEndian.decode [t₀, t₁] = wideTag then
      let all := decide (24 ≤ length)
      if rest.length < r.numbersLength all then some (r.withNumbers all rest)
      else if length < r.numbersLength all then none
      else widen (r.withNumbers all rest) (rest.drop length)
    else widen r (rest.drop length)
  | _ => some r
termination_by extra => extra.length
decreasing_by all_goals simp only [List.length_drop, List.length_cons]; omega

end DirectoryRecord

/-- The file whose directory record begins at `position`, and where the next record begins. Offsets
count from `shift`. A file cannot begin behind its directory record. -/
def memberAt? (bytes : List UInt8) (shift position : Nat) : Option (Member × Nat) := do
  let (fields, rest) ← LittleEndian.fields? DirectoryRecord.widths (bytes.drop position)
  let record ← DirectoryRecord.ofFields? fields
  let (name, rest) ← LittleEndian.split? record.nameLength rest
  let (extra, rest) ← LittleEndian.split? record.extraLength rest
  let _ ← LittleEndian.split? record.remarkLength rest
  let record ← record.widen extra
  let start ← dataStart? bytes (shift + record.offset)
  if position < start then none
  else
    let member : Member :=
      { name := decodeName (isUtf8 record.flags) name
        encrypted := isEncrypted record.flags
        method := .ofCode record.method
        checksum := UInt32.ofNat record.checksum
        data := (bytes.drop start).take record.compressedSize }
    return (member, position + DirectoryRecord.length + record.nameLength +
      record.extraLength + record.remarkLength)

/-- `count` files from the directory record at `position` on. -/
def membersAt? (bytes : List UInt8) (shift : Nat) : Nat → Nat → Option (List Member)
  | 0, _ => some []
  | count + 1, position => do
    let (member, next) ← memberAt? bytes shift position
    return member :: (← membersAt? bytes shift count next)

/-- The record right before `position` that says where the wide closing record is. -/
def locatorAt? (bytes : List UInt8) (position : Nat) : Option WideLocator := do
  if position < WideLocator.length then none
  else
    let place := position - WideLocator.length
    let (fields, _) ← LittleEndian.fields? WideLocator.widths (bytes.drop place)
    WideLocator.ofFields? fields

/-- The wide closing record that begins at `place`, if it reaches as far as its locator, which stands at
`locatorPlace`, and leaves room for the directory before it. -/
def wideAt? (bytes : List UInt8) (locator : WideLocator) (locatorPlace place : Nat) :
    Option WideClosingRecord := do
  let (fields, _) ← LittleEndian.fields? WideClosingRecord.widths (bytes.drop place)
  let record ← WideClosingRecord.ofFields? fields
  if record.directoryVolume = locator.volume ∧
      WideClosingRecord.length ≤ WideClosingRecord.headLength + record.extent ∧
      place + WideClosingRecord.headLength + record.extent = locatorPlace ∧
      record.directoryOffset + record.count * DirectoryRecord.length ≤ place then
    some record
  else none

/-- The archive whose wide closing record is found by a locator at `locatorPlace`. -/
def openWide? (bytes : List UInt8) (locator : WideLocator) (locatorPlace : Nat) : Option Archive := do
  if locatorPlace ≤ locator.offset ∨ 1 < locator.volumes then none
  else
    let before := (bytes.take locatorPlace).drop locator.offset
    let places := occurrences (markBytes WideClosingRecord.mark) locator.offset before
    let (place, record) ← places.findSome? fun place =>
      (wideAt? bytes locator locatorPlace place).map (place, ·)
    if record.count < record.countHere ∨ record.madeBy < record.needed ∨
        record.volume ≠ record.directoryVolume then none
    else
      let shift := place - locator.offset
      return ⟨← membersAt? bytes shift record.count (shift + record.directoryOffset)⟩

/-- The archive whose closing record is at `position` and has no wide one. -/
def openNarrow? (bytes : List UInt8) (record : ClosingRecord) (position : Nat) : Option Archive := do
  if record.volume ≠ record.directoryVolume then none
  else if record.count = 0 then some ⟨[]⟩
  else
    let offset := record.directoryOffset
    let between := (bytes.take position).drop offset
    let start ← (occurrences (markBytes DirectoryRecord.mark) offset between).head?
    return ⟨← membersAt? bytes (start - offset) record.count start⟩

/-- The archive whose closing record begins at `position`. -/
def openAt? (bytes : List UInt8) (position : Nat) : Option Archive := do
  let (fields, rest) ← LittleEndian.fields? ClosingRecord.widths (bytes.drop position)
  let record ← ClosingRecord.ofFields? fields
  let _ ← LittleEndian.split? record.remarkLength rest
  match if record.isFull then locatorAt? bytes position else none with
  | some locator => openWide? bytes locator (position - WideLocator.length)
  | none => openNarrow? bytes record position

end Archive

/-- The archive in some bytes. -/
def Archive.ofBytes? (bytes : List UInt8) : Option Archive :=
  (Archive.occurrences (Archive.markBytes Archive.ClosingRecord.mark) 0 bytes).reverse.findSome?
    (Archive.openAt? bytes)

end Blockwork
