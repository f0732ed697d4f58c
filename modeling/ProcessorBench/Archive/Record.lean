import ProcessorBench.Bytes.Basic

/-!
# Records of an archive

Everything in an archive but the files themselves is a record, which starts with four bytes that tell its
kind and goes on with numbers, their lowest byte first.
-/

namespace ProcessorBench.Archive

/-- The number in so many bytes at a place, the lowest byte first. -/
def numberAt (bytes : Bytes) (place width : Nat) : Nat :=
  Bytes.toNat ((bytes.drop place).take width).reverse

/-- The start of the record in front of a file. -/
def localSignature : Bytes := [0x50, 0x4B, 0x03, 0x04]

/-- The start of an entry of the directory. -/
def directorySignature : Bytes := [0x50, 0x4B, 0x01, 0x02]

/-- The start of the end record. -/
def endSignature : Bytes := [0x50, 0x4B, 0x05, 0x06]

/-- The start of the wide end record. -/
def wideEndSignature : Bytes := [0x50, 0x4B, 0x06, 0x06]

/-- The start of the locator of the wide end record. -/
def locatorSignature : Bytes := [0x50, 0x4B, 0x06, 0x07]

/-- The size of the record in front of a file, before its parts of varying size. -/
def localSize : Nat := 30

/-- The size of an entry of the directory, before its parts of varying size. -/
def directorySize : Nat := 46

/-- The size of the end record, before the comment. -/
def endSize : Nat := 22

/-- The size of the wide end record, before its part of varying size. -/
def wideEndSize : Nat := 56

/-- The size of the locator. -/
def locatorSize : Nat := 20

/-- The greatest number in a field of two bytes. It stands for a number that does not fit. -/
def greatestShort : Nat := 0xFFFF

/-- The greatest number in a field of four bytes. It stands for a number that does not fit. -/
def greatestLong : Nat := 0xFFFFFFFF

/-- The places, from `place` on, where a signature stands, each with the bytes from there on. -/
def occurrences (signature : Bytes) (place : Nat) : Bytes → List (Nat × Bytes)
  | [] => []
  | b :: rest =>
    let more := occurrences signature (place + 1) rest
    if signature.isPrefixOf (b :: rest) then (place, b :: rest) :: more else more

/-- The places from `first` up to `last` where a signature stands, each with the bytes up to `last`. -/
def occurrencesBetween (signature bytes : Bytes) (first last : Nat) : List (Nat × Bytes) :=
  occurrences signature first ((bytes.take last).drop first)

end ProcessorBench.Archive
