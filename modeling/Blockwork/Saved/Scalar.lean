import Blockwork.Json.Reader
import Blockwork.Saved.Error

/-!
# `Blockwork.Saved.Scalar`: taking plain values and records from trees

Records are written as objects or as arrays of their fields in declaration order. Fields are taken
in the order in which they stand, so the first mismatch met is the one reported, and only after the
last field is a missing one reported.

## Contents
- `Origin`, where a tree comes from: it decides about surplus items and about nesting.
- Decoders for texts, numbers, truth values, options, enumerations.
- `decodeRecord`, over `decodeMembers` and `decodeItems`.
- `Json.ofWholeText` and `decodeStream`, from a text to a tree.
-/

namespace Blockwork.Saved

/-! ## Origins -/

/-- Where a tree comes from. -/
structure Origin where
  /-- Why an array with some number of items is refused for a record with fewer fields. -/
  surplus : Nat → Nat → DecodeError
  /-- How deep parameter values may be nested. -/
  depth : Nat

/-- `n` things of some name. -/
def counted (n : Nat) (thing : String) : String :=
  toString n ++ " " ++ thing ++ (if n = 1 then "" else "s")

namespace Origin

/-- A text that was read completely before anything is taken from it. -/
def whole : Origin where
  surplus length _ := .mismatch (.invalidLength length "fewer elements in array")
  depth := 127

/-- A part that was read completely and set aside. -/
def buffered : Origin where
  surplus length fields :=
    .mismatch (.invalidLength length (counted fields "element" ++ " in sequence"))
  depth := 127

/-- A record at the top of a text that is read on the way, with `depth` levels left for values. -/
def streamed (depth : Nat) : Origin where
  surplus _ _ := .malformed
  depth := depth

end Origin

/-! ## Plain values -/

/-- A text. -/
def decodeText : Json → Decode String
  | .text s => .ok s
  | j => j.refuse "a string"

/-- A number. -/
def decodeNumber : Json → Decode Binary64
  | .number n => .ok n.toBinary64
  | j => j.refuse "f64"

/-- A truth value. -/
def decodeBool : Json → Decode Bool
  | .bool b => .ok b
  | j => j.refuse "a boolean"

/-- A value or null. -/
def decodeOption {α : Type} (decode : Json → Decode α) : Json → Decode (Option α)
  | .null => .ok none
  | j => (decode j).map some

/-- A name of an enumeration, or an object with this name as its only key and null as its value. -/
def decodeName {α : Type} (known : List String) (find : String → Option α) : Json → Decode α
  | .text s =>
    match find s with
    | some a => .ok a
    | none => (Mismatch.unknownVariant s known).fail
  | .object [(some key, j)] =>
    match find key, j with
    | none, _ => (Mismatch.unknownVariant key known).fail
    | some a, .null => .ok a
    | some _, j => j.refuse "unit"
  | .object _ => Mismatch.notSingleKey.fail
  | j => j.refuse "string or map"

/-! ## Records -/

/-- Passes over a value that nobody asks for. -/
def skip (j : Json) : Decode Unit :=
  if j.skippable then .ok () else .error .malformed

/-- A field's value; it must not have one yet. -/
def once {α : Type} (name : String) (current : Option α) (value : Decode α) : Decode (Option α) :=
  match current with
  | some _ => (Mismatch.duplicateField name).fail
  | none => value.map some

/-- A value that has to be there. -/
def require {α : Type} (missing : Mismatch) : Option α → Decode α
  | some a => .ok a
  | none => missing.fail

/-- The fields of an object, taken in order. -/
def decodeMembers {σ : Type} (field : σ → String → Json → Decode σ) (draft : σ) :
    List (Option String × Json) → Decode σ
  | [] => .ok draft
  | (none, _) :: _ => .error .malformed
  | (some key, j) :: rest => do decodeMembers field (← field draft key j) rest

/-- The fields of an array, taken in order, as long as there are names. -/
def decodeItems {σ : Type} (field : σ → String → Json → Decode σ) (draft : σ) :
    List String → List Json → Decode σ
  | name :: names, j :: js => do decodeItems field (← field draft name j) names js
  | _, _ => .ok draft

/-- A record with the given name and fields. `finish` makes the value from the draft, given the
mismatch to report for a missing field. -/
def decodeRecord {σ α : Type} (origin : Origin) (record : String) (names : List String)
    (field : σ → String → Json → Decode σ) (draft : σ)
    (finish : (String → Mismatch) → σ → Decode α) : Json → Decode α
  | .object members => do finish .missingField (← decodeMembers field draft members)
  | .array items => do
    let draft ← decodeItems field draft names items
    let expected := record ++ " with " ++ counted names.length "element"
    let value ← finish (fun _ => .invalidLength items.length expected) draft
    if names.length < items.length then .error (origin.surplus items.length names.length)
    else return value
  | j => j.refuse record

/-! ## From texts -/

/-- How deep texts may be nested. -/
def depthLimit : Nat := 127

/-- The tree of a text that is read completely; objects become maps. -/
def ofWholeText (s : String) : Decode Json :=
  let d := Json.Document.read s
  if d.closed && d.root.readable depthLimit then .ok d.root.canonical else .error .malformed

/-- A value taken from a text on the way; what follows it is looked at last. -/
def decodeStream {α : Type} (decode : Json → Decode α) (s : String) : Decode α := do
  let d := Json.Document.read s
  let a ← decode d.root
  if d.closed then return a else .error .malformed

end Blockwork.Saved
