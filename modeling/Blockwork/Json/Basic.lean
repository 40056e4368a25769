import Blockwork.Number.Binary64

/-!
# `Blockwork.Json.Basic`: JSON trees

A tree is what could be read of a text. Reading never fails as a whole: where the text stops being
JSON, the tree has the leaf `broken`, so whoever looks through the tree from left to right meets a
value of the wrong shape before a fault that comes after it.

## Contents
- `Numeral`, the three readings of a number.
- `Json`, and `Json.record` for an object that is written.
- `Json.readable`, all of the tree is usable; `Json.skippable`, the text goes on after it.
- `Json.canonical`, objects as maps: keys in order, the last of equal keys.
-/

namespace Blockwork

/-! ## Numbers -/

/-- A number: a whole number of 64 bits without or with a sign, or a double. -/
inductive Numeral where
  | natural (n : Nat)
  /-- the number `-n` -/
  | negative (n : Nat)
  | real (x : Binary64)
  deriving DecidableEq

/-- The number as a double. -/
def Numeral.toBinary64 : Numeral → Binary64
  | natural n => .ofNat n
  | negative n => (Binary64.ofNat n).neg
  | real x => x

/-! ## Trees -/

/-- What was read of a JSON text. -/
inductive Json where
  | null
  | bool (b : Bool)
  | number (n : Numeral)
  | text (s : String)
  | array (items : List Json)
  /-- The members in the order of the text. A key that is no text of Unicode characters is none. -/
  | object (members : List (Option String × Json))
  /-- a number beyond the range of doubles, or a text with half a surrogate pair -/
  | unreadable
  /-- the text stops being JSON here -/
  | broken

namespace Json

instance : Inhabited Json := ⟨null⟩

/-- An object with the given members. -/
def record (members : List (String × Json)) : Json :=
  object (members.map fun (key, value) => (some key, value))

/-! ## Usable trees -/

mutual

/-- Whether the tree is complete and nested at most `depth` deep. -/
def readable (depth : Nat) : Json → Bool
  | array items => 0 < depth && readableAll (depth - 1) items
  | object members => 0 < depth && readableMembers (depth - 1) members
  | unreadable => false
  | broken => false
  | _ => true

/-- Whether all items are complete and nested at most `depth` deep. -/
def readableAll (depth : Nat) : List Json → Bool
  | [] => true
  | j :: js => readable depth j && readableAll depth js

/-- Whether all members are complete and nested at most `depth` deep. -/
def readableMembers (depth : Nat) : List (Option String × Json) → Bool
  | [] => true
  | (key, j) :: ms => key.isSome && readable depth j && readableMembers depth ms

end

mutual

/-- Whether the text goes on after the tree. -/
def skippable : Json → Bool
  | array items => skippableAll items
  | object members => skippableMembers members
  | broken => false
  | _ => true

/-- Whether the text goes on after all items. -/
def skippableAll : List Json → Bool
  | [] => true
  | j :: js => skippable j && skippableAll js

/-- Whether the text goes on after all members. -/
def skippableMembers : List (Option String × Json) → Bool
  | [] => true
  | (_, j) :: ms => skippable j && skippableMembers ms

end

/-! ## Objects as maps -/

/-- The members with `key` set to `value`, at the place that keeps keys increasing. -/
def insertMember (key : Option String) (value : Json) :
    List (Option String × Json) → List (Option String × Json)
  | [] => [(key, value)]
  | (k, v) :: rest =>
    if key.getD "" < k.getD "" then (key, value) :: (k, v) :: rest
    else if key = k then (key, value) :: rest
    else (k, v) :: insertMember key value rest

mutual

/-- The tree with the keys of every object in increasing order, of equal keys the last. -/
def canonical : Json → Json
  | array items => array (canonicalAll items)
  | object members =>
    object ((canonicalMembers members).foldl (fun ms (key, value) => insertMember key value ms) [])
  | j => j

/-- The items, each canonical. -/
def canonicalAll : List Json → List Json
  | [] => []
  | j :: js => canonical j :: canonicalAll js

/-- The members in their order, each value canonical. -/
def canonicalMembers : List (Option String × Json) → List (Option String × Json)
  | [] => []
  | (key, j) :: ms => (key, canonical j) :: canonicalMembers ms

end

/-- The value of a key of an object; none for another tree or an absent key. -/
def get? (key : String) : Json → Option Json
  | object members => (members.find? fun m => m.1 == some key).map (·.2)
  | _ => none

/-- The text of a text. -/
def text? : Json → Option String
  | text s => some s
  | _ => none

end Json

end Blockwork
