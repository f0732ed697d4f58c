import ProcessorBench.Archive.Crc32
import ProcessorBench.Archive.Member
import ProcessorBench.Archive.Record
import ProcessorBench.Text.Utf8

/-!
# Extra fields

An entry of a directory can bring fields of other kinds, each with its kind and its length: numbers that are
too great for the entry, times, a name or a comment in another encoding, and how the file is enciphered.
`ExtraField.amend?` makes of a member what its fields say. Where the fields break off, those before it still
count; a field that contradicts itself makes the whole entry worthless.
-/

namespace ProcessorBench.ExtraField

open Archive (greatestLong)

/-- Why the reading of fields ends early. -/
inductive Stop where
  /-- There are no more bytes. -/
  | exhausted
  /-- A field contradicts itself. -/
  | corrupt
deriving DecidableEq, Repr

/-- A step of reading: the bytes that are left, and the member as the fields so far describe it. -/
structure State where
  bytes : Bytes
  member : ArchiveMember

/-- A step that may stop. -/
abbrev Step := EStateM Stop State

/-- Read so many bytes. -/
def take (n : Nat) : Step Bytes := fun s =>
  match Bytes.split? n s.bytes with
  | some (head, rest) => .ok head { s with bytes := rest }
  | none => .error .exhausted s

/-- Read a number of so many bytes, the lowest first. -/
def number (width : Nat) : Step Nat := return Bytes.toNat (← take width).reverse

/-- Stop unless something holds. -/
def require (holds : Bool) : Step Unit := unless holds do throw .corrupt

/-- Describe the member anew. -/
def describe (f : ArchiveMember → ArchiveMember) : Step Unit :=
  modify fun s => { s with member := f s.member }

/-! ## Kinds of fields -/

/-- Whether a number of an entry is given again in a field of the given length, in eight bytes. A field with
room for all numbers gives all. -/
def isWide (length n : Nat) : Bool := length ≥ 24 || n = greatestLong

/-- The numbers that are too great for the entry. -/
def wideNumbers (length : Nat) : Step Unit := do
  let start ← get
  if isWide length start.member.size then
    let size ← number 8
    describe fun m => { m with size }
  if isWide length start.member.compressedSize then
    let compressedSize ← number 8
    describe fun m => { m with compressedSize }
  if isWide length start.member.place then
    let place ← number 8
    describe fun m => { m with place }
  let used := start.bytes.length - (← get).bytes.length
  require (used ≤ length)
  discard <| take (length - used)

/-- The times of a file, to a fraction of a second. -/
def preciseTimes (length : Nat) : Step Unit := do
  require (length = 32)
  discard <| take 4
  require ((← number 2) = 1)
  require ((← number 2) = 24)
  discard <| take 24

/-- The times of a file, to a second. Flags tell which there are; a field of five bytes has one time. -/
def times (length : Nat) : Step Unit := do
  let flags ← number 1
  require (length = 5 || length = 1 + 4 * (List.range 8).countP (flags.testBit ·))
  discard <| take (4 * if length = 5 then 1 else (List.range 3).countP (flags.testBit ·))

/-- A text that replaces another one, whose check sum it has to give. -/
def text (length : Nat) (replaced : Bytes) : Step (Bytes × String) := do
  discard <| take 1
  let checkSum ← number 4
  require (5 ≤ length)
  let bytes ← take (length - 5)
  require (Crc32.ofBytes replaced = UInt32.ofNat checkSum)
  match Utf8.decode? bytes with
  | some text => return (bytes, text)
  | none => throw .corrupt

/-- The name of the file. -/
def name (length : Nat) : Step Unit := do
  let (nameBytes, name) ← text length (← get).member.nameBytes
  describe fun m => { m with nameBytes, name }

/-- The comment on the file. -/
def comment (length : Nat) : Step Unit := do
  let (_, comment) ← text length (Utf8.encode (← get).member.comment)
  describe fun m => { m with comment }

/-- How the file is enciphered, and in what way it was compressed before. -/
def cipher (length : Nat) : Step Unit := do
  require (length = 7)
  let version ← number 2
  let vendor ← number 2
  let strength ← number 1
  let method ← number 2
  require (vendor = 0x4541)
  require (version = 1 || version = 2)
  require (1 ≤ strength && strength ≤ 3)
  describe fun m => { m with method, enciphered := true }

/-- Read a field. One of an unknown kind says nothing. -/
def field : Step Unit := do
  let kind ← number 2
  let length ← number 2
  match kind with
  | 0x0001 => wideNumbers length
  | 0x000A => preciseTimes length
  | 0x5455 => times length
  | 0x6375 => comment length
  | 0x7075 => name length
  | 0x9901 => cipher length
  | _ => discard <| take length

/-- Read fields to the end of the bytes. Each takes a byte at least, so that there are no more fields than
bytes. -/
def fields : (fuel : Nat) → Step Unit
  | 0 => throw .exhausted
  | fuel + 1 => do
    if (← get).bytes.isEmpty then return
    field
    fields fuel

/-- The member that some fields make of one, unless a field contradicts itself. -/
def amend? (member : ArchiveMember) (bytes : Bytes) : Option ArchiveMember :=
  match (fields (bytes.length + 1)).run { bytes, member } with
  | .ok () state | .error .exhausted state => some state.member
  | .error .corrupt _ => none

end ProcessorBench.ExtraField
