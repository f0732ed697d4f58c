import ProcessorBench.Bytes.Basic

/-!
# Members of an archive

What the directory of an archive says about a file.
-/

namespace ProcessorBench

/-- A file of an archive, as the directory describes it. -/
structure ArchiveMember where
  name : String
  /-- The name as it is written. -/
  nameBytes : Bytes
  comment : String
  /-- Whether a password is needed. -/
  encrypted : Bool
  /-- Whether an extra field tells how the file is enciphered. -/
  enciphered : Bool
  method : Nat
  checkSum : UInt32
  size : Nat
  compressedSize : Nat
  /-- Where the record in front of the file starts. -/
  place : Nat
deriving Repr

end ProcessorBench
