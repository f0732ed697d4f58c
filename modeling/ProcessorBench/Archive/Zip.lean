import ProcessorBench.Archive.Crc32
import ProcessorBench.Archive.EndRecord
import ProcessorBench.Archive.ExtraField
import ProcessorBench.Archive.Inflate
import ProcessorBench.Archive.Member
import ProcessorBench.Text.CodePage437
import ProcessorBench.Text.Utf8

/-!
# Archives

An archive is a row of files followed by a directory of them, which the end record points to.
`ZipArchive.open?` reads the directory, and `ZipArchive.read?` a file; only then the record in front of the
file is looked at.
-/

namespace ProcessorBench

/-- An archive whose directory has been read. -/
structure ZipArchive where
  bytes : Bytes
  members : List ArchiveMember

namespace ZipArchive

open Archive

/-- The text of a name or a comment, in the encoding that a flag tells. -/
def decodeText (isUtf8 : Bool) (bytes : Bytes) : String :=
  if isUtf8 then Utf8.decodeLossy bytes else CodePage437.decode bytes

/-- The method of files that are enciphered in the way that an extra field has to tell. -/
def cipherMethod : Nat := 99

/-- Read a directory entry, and what is left of the directory. Its file stands `shift` bytes after the place
that the entry gives, which is a number of eight bytes. -/
def member? (shift : Nat) (entry : Bytes) : Option (ArchiveMember × Bytes) := do
  let nameSize := numberAt entry 28 2
  let extraSize := numberAt entry 30 2
  let commentSize := numberAt entry 32 2
  let size := directorySize + nameSize + extraSize + commentSize
  guard (directorySignature.isPrefixOf entry && entry.length ≥ size)
  let flags := numberAt entry 8 2
  let nameBytes := (entry.drop directorySize).take nameSize
  let extra := (entry.drop (directorySize + nameSize)).take extraSize
  let comment := (entry.drop (directorySize + nameSize + extraSize)).take commentSize
  let plain : ArchiveMember :=
    { name := decodeText (flags.testBit 11) nameBytes
      nameBytes
      comment := decodeText (flags.testBit 11) comment
      encrypted := flags.testBit 0
      enciphered := false
      method := numberAt entry 10 2
      checkSum := UInt32.ofNat (numberAt entry 16 4)
      size := numberAt entry 24 4
      compressedSize := numberAt entry 20 4
      place := numberAt entry 42 4 }
  let member ← ExtraField.amend? plain extra
  guard (member.method ≠ cipherMethod || member.enciphered)
  guard (member.place + shift < UInt64.size)
  return ({ member with place := member.place + shift }, entry.drop size)

/-- Read so many directory entries. -/
def members? (shift : Nat) : (count : Nat) → Bytes → Option (List ArchiveMember)
  | 0, _ => some []
  | count + 1, directory => do
    let (member, rest) ← member? shift directory
    return member :: (← members? shift count rest)

/-- Open an archive. Of the end records that it seems to have, the last counts that makes sense. -/
def open? (bytes : Bytes) : Option ZipArchive :=
  (endRecords bytes).findSome? fun e => do
    let directory ← e.directory? bytes
    let members ← members? directory.shift directory.count (bytes.drop directory.start)
    return { bytes, members }

/-- The file of a name. Of files of one name, the last counts. -/
def member (a : ZipArchive) (name : String) : Option ArchiveMember :=
  a.members.reverse.find? (·.name = name)

/-- Where the data of a file starts whose record starts at the given place. -/
def dataStart? (bytes : Bytes) (place : Nat) : Option Nat :=
  let record := bytes.drop place
  if localSignature.isPrefixOf record && record.length ≥ localSize then
    some (place + localSize + numberAt record 26 2 + numberAt record 28 2)
  else none

/-- The content of a file, which has to be stored or compressed in the common way, and to have the check
sum that the directory gives. -/
def read? (a : ZipArchive) (m : ArchiveMember) : Option Bytes := do
  guard (!m.encrypted && !m.enciphered)
  let dataStart ← dataStart? a.bytes m.place
  let data := (a.bytes.drop dataStart).take m.compressedSize
  let content ← if m.method = 0 then some data else if m.method = 8 then Inflate.decode? data else none
  guard (Crc32.ofBytes content = m.checkSum)
  return content

end ZipArchive

end ProcessorBench
