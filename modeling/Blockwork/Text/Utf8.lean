/-!
# `Blockwork.Text.Utf8`: texts as bytes

## Contents
- `encode` and `decode?`, with `decode?_encode`: a text is read back from its bytes.
-/

namespace Blockwork.Utf8

/-- The bytes of a text. -/
def encode (s : String) : List UInt8 :=
  s.toUTF8.data.toList

/-- The text of bytes, if they are well formed. -/
def decode? (bytes : List UInt8) : Option String :=
  String.fromUTF8? ⟨bytes.toArray⟩

/-- A text is read back from its bytes. -/
@[simp] theorem decode?_encode (s : String) : decode? (encode s) = some s := by
  have h : (⟨(encode s).toArray⟩ : ByteArray) = s.toUTF8 := by
    simp [encode]
  have valid : s.toUTF8.IsValidUTF8 := s.isValidUTF8
  simp only [decode?, h, String.fromUTF8?, valid, dite_true]
  rfl

end Blockwork.Utf8
