import Blockwork.Text.Utf8

/-!
# `Blockwork.Archive.Name`: names of archive members

A name is stored as bytes. A mark beside it says that they are UTF-8; without the mark, bytes above
127 stand for the letters and line drawings of code page 437.
-/

namespace Blockwork.Archive

/-- The characters of code page 437 from 128 on. -/
def upperHalf : List Char :=
  ("ÇüéâäàåçêëèïîìÄÅÉæÆôöòûùÿÖÜ¢£¥₧ƒáíóúñÑªº¿⌐¬½¼¡«»░▒▓│┤╡╢╖╕╣║╗╝╜╛┐└┴┬├─┼╞╟╚╔╩╦╠═╬╧╨╤╥╙╘╒╓╫╪┘┌█▄▌▐▀" ++
    "αßΓπΣσµτΦΘΩδ∞φε∩≡±≥≤⌠⌡÷≈°∙·√ⁿ²■\u00A0").toList

/-- The character of a byte in code page 437. -/
def characterOf (b : UInt8) : Char :=
  if b < 128 then Char.ofNat b.toNat else upperHalf.getD (b.toNat - 128) '\uFFFD'

/-- The name stored as given bytes. Marked bytes that are not UTF-8 stand for no name that can be
asked for. -/
def decodeName (isUtf8 : Bool) (bytes : List UInt8) : Option String :=
  if isUtf8 then Utf8.decode? bytes else some (String.ofList (bytes.map characterOf))

end Blockwork.Archive
