import Blockwork.Deflate.Inflate
import Blockwork.Digest.Crc32

/-!
# `Blockwork.Archive.Member`: files inside an archive

## Contents
- `Method`, how a member's bytes are kept.
- `Member` and `Archive`.
- `Archive.find?`, a member that can be read, by its name.
- `Member.content`, the bytes of a member, and `ContentError`.
-/

namespace Blockwork.Archive

/-- How the bytes of a member are kept. -/
inductive Method where
  | stored | deflated
  /-- A way that cannot be undone here. -/
  | other (code : Nat)
  deriving DecidableEq, Repr

/-- The method with a given number. -/
def Method.ofCode : Nat → Method
  | 0 => stored
  | 8 => deflated
  | code => other code

/-- The number of a method. -/
def Method.code : Method → Nat
  | stored => 0
  | deflated => 8
  | other code => code

/-- The name of a method. -/
def Method.name : Method → String
  | stored => "Stored"
  | deflated => "Deflated"
  | other _ => "Unsupported"

/-- A file inside an archive. -/
structure Member where
  /-- Its name, if that is text. -/
  name : Option String
  encrypted : Bool
  method : Method
  /-- The checksum of its bytes. -/
  checksum : UInt32
  /-- Its bytes as they are kept. -/
  data : List UInt8
  deriving DecidableEq

/-- Whether the bytes of a member can be had. -/
def Member.isReadable (m : Member) : Bool :=
  !m.encrypted && m.method matches .stored | .deflated

/-- Why a member has no bytes. -/
inductive ContentError where
  | corrupt
  | wrongChecksum
  deriving DecidableEq, Repr

/-- What is reported about the failure. -/
def ContentError.message : ContentError → String
  | corrupt => "corrupt deflate stream"
  | wrongChecksum => "Invalid checksum"

/-- The bytes of a member if they have the expected checksum. -/
def Member.checked (m : Member) (bytes : List UInt8) : Except ContentError (List UInt8) :=
  if Crc32.checksum bytes = m.checksum then .ok bytes else .error .wrongChecksum

/-- The bytes of a member. Compressed data that stops early counts as far as it goes. -/
def Member.content (m : Member) : Except ContentError (List UInt8) :=
  match m.method with
  | .deflated =>
    match Deflate.inflate m.data with
    | (_, some .corrupt) => .error .corrupt
    | (bytes, _) => m.checked bytes
  | _ => m.checked m.data

end Blockwork.Archive

namespace Blockwork

/-- The members of an archive in their order. -/
structure Archive where
  members : List Archive.Member

/-- The last member with a given name, if its bytes can be had. -/
def Archive.find? (a : Archive) (name : String) : Option Archive.Member :=
  (a.members.reverse.find? (·.name == some name)).filter (·.isReadable)

end Blockwork
