import ProcessorBench.Archive.Record

/-!
# The end of an archive

An archive ends with a record that tells where its directory is. If a number does not fit in there, the
numbers of a wide end record count, which a locator in front of the end record points to. What stands before
the first file belongs to none: all places are given as if it were not there, so that the directory and the
wide end record can be found later than they are said to be. `EndRecord.directory?` puts this together.
-/

namespace ProcessorBench.Archive

/-- Where the directory is, and what it holds. -/
structure DirectoryExtent where
  start : Nat
  /-- The number of bytes before the archive proper, by which all places are moved. -/
  shift : Nat
  /-- The number of entries. -/
  count : Nat
deriving DecidableEq, Repr

/-- What an end record says. -/
structure EndRecord where
  position : Nat
  disk : Nat
  directoryDisk : Nat
  /-- The number of files on this disk. -/
  count : Nat
  /-- The number of files on all disks. -/
  totalCount : Nat
  directoryOffset : Nat

/-- What the locator of a wide end record says. -/
structure Locator where
  position : Nat
  directoryDisk : Nat
  recordOffset : Nat
  diskCount : Nat

/-- What a wide end record says. -/
structure WideEndRecord where
  position : Nat
  versionMadeBy : Nat
  versionNeeded : Nat
  disk : Nat
  directoryDisk : Nat
  /-- The number of files on this disk. -/
  count : Nat
  /-- The number of files on all disks. -/
  totalCount : Nat
  directoryOffset : Nat

/-- Read a wide end record. It ends where its locator starts, agrees with it about the disk of the directory,
and comes after a directory of so many entries. -/
def WideEndRecord.ofBytes? (l : Locator) (position : Nat) (bytes : Bytes) : Option WideEndRecord := do
  guard (wideEndSize ≤ l.position - position)
  guard (numberAt bytes 4 8 + 12 = l.position - position)
  let record : WideEndRecord :=
    { position
      versionMadeBy := numberAt bytes 12 2
      versionNeeded := numberAt bytes 14 2
      disk := numberAt bytes 16 4
      directoryDisk := numberAt bytes 20 4
      count := numberAt bytes 24 8
      totalCount := numberAt bytes 32 8
      directoryOffset := numberAt bytes 48 8 }
  guard (record.directoryDisk = l.directoryDisk)
  guard (record.totalCount * directorySize + record.directoryOffset ≤ position)
  return record

/-- Read the locator that stands right before an end record. -/
def Locator.before? (bytes : Bytes) (e : EndRecord) : Option Locator := do
  guard (locatorSize ≤ e.position)
  let position := e.position - locatorSize
  let record := bytes.drop position
  guard (locatorSignature.isPrefixOf record)
  some
    { position
      directoryDisk := numberAt record 4 4
      recordOffset := numberAt record 8 8
      diskCount := numberAt record 16 4 }

/-- The directory that a wide end record tells of: the first one that makes sense between the place that the
locator gives and the locator itself. -/
def Locator.directory? (l : Locator) (bytes : Bytes) : Option DirectoryExtent := do
  guard (l.recordOffset < l.position && l.diskCount ≤ 1)
  let found := occurrencesBetween wideEndSignature bytes l.recordOffset l.position
  let record ← found.findSome? fun (position, bytes) => WideEndRecord.ofBytes? l position bytes
  guard (record.count ≤ record.totalCount)
  guard (record.versionNeeded ≤ record.versionMadeBy)
  guard (record.disk = record.directoryDisk)
  let shift := record.position - l.recordOffset
  return { start := record.directoryOffset + shift, shift, count := record.totalCount }

namespace EndRecord

/-- Read an end record, with the comment that belongs to it. -/
def ofBytes? (position : Nat) (bytes : Bytes) : Option EndRecord :=
  if bytes.length < endSize + numberAt bytes 20 2 then none
  else some
    { position
      disk := numberAt bytes 4 2
      directoryDisk := numberAt bytes 6 2
      count := numberAt bytes 8 2
      totalCount := numberAt bytes 10 2
      directoryOffset := numberAt bytes 16 4 }

/-- Whether a number may be too great for the record. -/
def isFull (e : EndRecord) : Bool :=
  e.totalCount = greatestShort || e.directoryOffset = greatestLong

/-- Where the directory starts that the record itself tells of. Its first entry can stand later than the
record says; an archive without files has an empty directory right before the end. -/
def directoryStart? (e : EndRecord) (bytes : Bytes) : Option Nat :=
  if e.totalCount = 0 then some (max e.position e.directoryOffset)
  else
    (occurrencesBetween directorySignature bytes e.directoryOffset e.position).head?.map (·.1)

/-- The directory that the record itself tells of. -/
def ownDirectory? (e : EndRecord) (bytes : Bytes) : Option DirectoryExtent := do
  let start ← e.directoryStart? bytes
  guard (e.disk = e.directoryDisk)
  return { start, shift := start - e.directoryOffset, count := e.count }

/-- The directory of an archive with this end record. -/
def directory? (e : EndRecord) (bytes : Bytes) : Option DirectoryExtent :=
  match if e.isFull then Locator.before? bytes e else none with
  | some locator => locator.directory? bytes
  | none => e.ownDirectory? bytes

end EndRecord

/-- The end records that an archive seems to have, the last one first. -/
def endRecords (bytes : Bytes) : List EndRecord :=
  (occurrences endSignature 0 bytes).reverse.filterMap fun (position, record) =>
    EndRecord.ofBytes? position record

end ProcessorBench.Archive
