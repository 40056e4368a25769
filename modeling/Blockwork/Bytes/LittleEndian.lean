/-!
# `Blockwork.Bytes.LittleEndian`: numbers as bytes

A number is written in a fixed count of bytes, the lowest first; what does not fit is cut off.

## Contents
- `encode` and `decode`, with `decode_encode`.
- `fields?`, numbers of given widths from the beginning of some bytes, with `fields?_encode`.
-/

namespace Blockwork.LittleEndian

/-- The `width` low bytes of a number. -/
def encode : Nat → Nat → List UInt8
  | 0, _ => []
  | width + 1, n => UInt8.ofNat n :: encode width (n / 256)

/-- The number of some bytes. -/
def decode : List UInt8 → Nat
  | [] => 0
  | b :: bs => b.toNat + 256 * decode bs

@[simp] theorem length_encode (width n : Nat) : (encode width n).length = width := by
  induction width generalizing n <;> simp [encode, *]

/-- A number that fits is read back. -/
theorem decode_encode {width n : Nat} (h : n < Nat.pow 256 width) : decode (encode width n) = n := by
  induction width generalizing n with
  | zero =>
    have : n = 0 := by simpa using h
    simp [encode, decode, this]
  | succ width ih =>
    have hd : n / 256 < Nat.pow 256 width := by
      apply (Nat.div_lt_iff_lt_mul (by decide)).2
      simpa [Nat.pow_succ] using h
    simp only [encode, decode, UInt8.toNat_ofNat', ih hd]
    omega

/-! ## Fields -/

/-- The first `n` bytes and what follows them. -/
def split? (n : Nat) (bytes : List UInt8) : Option (List UInt8 × List UInt8) :=
  if n ≤ bytes.length then some (bytes.take n, bytes.drop n) else none

theorem split?_append (xs ys : List UInt8) : split? xs.length (xs ++ ys) = some (xs, ys) := by
  simp [split?]

/-- Numbers of the given widths from the beginning of some bytes, and what follows them. -/
def fields? : List Nat → List UInt8 → Option (List Nat × List UInt8)
  | [], bytes => some ([], bytes)
  | width :: widths, bytes => do
    let (field, rest) ← split? width bytes
    let (numbers, rest) ← fields? widths rest
    return (decode field :: numbers, rest)

/-- Numbers written in given widths. -/
def encodeFields (fields : List (Nat × Nat)) : List UInt8 :=
  fields.flatMap fun (width, n) => encode width n

/-- Numbers that fit are read back. -/
theorem fields?_encodeFields {fields : List (Nat × Nat)} (h : ∀ f ∈ fields, f.2 < Nat.pow 256 f.1)
    (rest : List UInt8) :
    fields? (fields.map Prod.fst) (encodeFields fields ++ rest) = some (fields.map Prod.snd, rest) := by
  induction fields with
  | nil => simp [fields?, encodeFields]
  | cons f fs ih =>
    obtain ⟨width, n⟩ := f
    have hn : n < Nat.pow 256 width := h (width, n) List.mem_cons_self
    have ih := ih fun g hg => h g (List.mem_cons_of_mem _ hg)
    have hsplit := split?_append (encode width n) (encodeFields fs ++ rest)
    rw [length_encode] at hsplit
    simp only [encodeFields, List.flatMap_cons, List.map_cons, fields?, List.append_assoc]
    rw [show List.flatMap (fun (x : Nat × Nat) => encode x.1 x.2) fs = encodeFields fs from rfl,
      hsplit]
    simp [ih, decode_encode hn]

end Blockwork.LittleEndian
