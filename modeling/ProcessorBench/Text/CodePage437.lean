import ProcessorBench.Bytes.Basic

/-!
# Code page 437

An old set of characters with one byte each. Its first half is ASCII.
-/

namespace ProcessorBench.CodePage437

/-- The characters of the bytes from 80 to FF. -/
def upperHalf : List Char :=
  ("ÇüéâäàåçêëèïîìÄÅÉæÆôöòûùÿÖÜ¢£¥₧ƒáíóúñÑªº¿⌐¬½¼¡«»░▒▓│┤╡╢╖╕╣║╗╝╜╛┐" ++
   "└┴┬├─┼╞╟╚╔╩╦╠═╬╧╨╤╥╙╘╒╓╫╪┘┌█▄▌▐▀αßΓπΣσµτΦΘΩδ∞φε∩≡±≥≤⌠⌡÷≈°∙·√ⁿ²■\u00a0").toList

/-- The character of a byte. -/
def charOf (b : UInt8) : Char :=
  if b < 0x80 then Char.ofNat b.toNat else upperHalf.getD (b.toNat - 0x80) ' '

/-- The text of some bytes. -/
def decode (bytes : Bytes) : String := String.ofList (bytes.map charOf)

end ProcessorBench.CodePage437
