import ProcessorBench.Text.Utf8

/-!
# Bytes as characters

A text that is worked on byte by byte: each byte counts as the character with its code, so that nothing is
lost, whatever the bytes are.
-/

namespace ProcessorBench.Latin1

/-- The characters of some bytes. -/
def decode (bytes : Bytes) : List Char := bytes.map fun b => Char.ofNat b.toNat

/-- The bytes of some characters. -/
def encode (text : List Char) : Bytes := text.map fun c => UInt8.ofNat c.toNat

/-- A text as the characters of its bytes. -/
def ofString (text : String) : List Char := decode (Utf8.encode text)

end ProcessorBench.Latin1
