import ProcessorBench.Archive.Zip
import ProcessorBench.FileTree.Disk
import ProcessorBench.Loading.Platform

/-!
# Class paths

A class path is a list of directories and archives. The first one that holds the file of a class decides
what the class is. Classes that none holds, and all of the packages `java.*`, are those of the platform.
What is in an archive is told by a reader (`ArchiveReader`), of which nothing else is known here.
-/

namespace ProcessorBench

/-- The files of an archive, as they are told by what reads it. -/
structure ArchiveFiles where
  /-- The names of the files. -/
  names : List String
  /-- The content of the file of a name, if it can be read. -/
  content? : String → Option Bytes

/-- What reads archives: the files of an archive with the given bytes, if it is one. -/
abbrev ArchiveReader := Bytes → Option ArchiveFiles

/-- The files of an archive whose directory has been read. -/
def ZipArchive.files (a : ZipArchive) : ArchiveFiles where
  names := a.members.map (·.name)
  content? name := (a.member name).bind a.read?

/-- The reader for archives of the common kind. -/
def ZipArchive.reader : ArchiveReader := fun bytes => (open? bytes).map files

/-- A place to look for classes. -/
inductive ClassPathEntry where
  | directory (path : Path)
  /-- An archive, as it was when the class path was opened. -/
  | archive (path : Path) (files : ArchiveFiles)

namespace ClassPathEntry

/-- The path of an entry. -/
def path : ClassPathEntry → Path
  | .directory path => path
  | .archive path _ => path

/-- Open an entry. One that is not there is left out. -/
def open? (reader : ArchiveReader) (disk : Disk) (path : Path) :
    Except LoadError (Option ClassPathEntry) :=
  match disk.lookup path with
  | .ok (.dir _) => .ok (some (.directory path))
  | .ok (.file content _) =>
    match reader content with
    | some files => .ok (some (.archive path files))
    | none => .error (.archive path)
  | .error _ => .ok none

/-- Where in a directory the file of a resource is. -/
def fileOf (directory : Path) (resource : String) : Path :=
  directory.joinAll (Text.splitOn '/' resource)

/-- The content of a resource, if the entry holds it. -/
def read (disk : Disk) (resource : String) : ClassPathEntry → Except LoadError (Option Bytes)
  | .directory path =>
    let file := fileOf path resource
    if disk.isFile file then
      match disk.read file with
      | .ok content => .ok (some content)
      | .error _ => .error (.io file)
    else .ok none
  | .archive path files =>
    if resource ∈ files.names then
      match files.content? resource with
      | some content => .ok (some content)
      | none => .error (.archive path)
    else .ok none

/-- How many classes an entry can hold at most. -/
def capacity (disk : Disk) : ClassPathEntry → Nat
  | .directory _ => disk.tree.files.length
  | .archive _ files => files.names.length

end ClassPathEntry

/-- The places to look for classes, in order. -/
abbrev ClassPath := List ClassPathEntry

namespace ClassPath

/-- Open a class path with a reader for its archives. -/
def openBy (reader : ArchiveReader) (disk : Disk) (paths : List Path) : Except LoadError ClassPath :=
  return (← paths.mapM (ClassPathEntry.open? reader disk)).filterMap id

/-- Open a class path. -/
def openAll (disk : Disk) (paths : List Path) : Except LoadError ClassPath :=
  openBy ZipArchive.reader disk paths

/-- The resource that holds a class. -/
def resourceOf (name : String) : String := ClassName.toInternal name ++ ".class"

/-- Look for a class. The first entry that holds its resource decides. -/
def find? (disk : Disk) (name : String) : ClassPath → Except LoadError (Option LoadedClass)
  | [] => .ok none
  | entry :: rest => do
    match ← entry.read disk (resourceOf name) with
    | none => find? disk name rest
    | some bytes =>
      let c ← LoadedClass.ofBytes bytes (.classPath entry.path)
      if c.name = name then return some c else throw (.wrongName name c.name)

/-- Whether only the platform may define a class. -/
def isReserved (name : String) : Bool := Platform.startsWith "java." name

/-- Ask for a class. -/
def resolve (path : ClassPath) (disk : Disk) (name : String) : LoadStep Definition := do
  match ← LoadStep.known? .classPath name with
  | some definition => return definition
  | none =>
    if isReserved name then Platform.resolve name
    else
      match ← LoadStep.ofExcept (path.find? disk name) with
      | some content => LoadStep.define .classPath name content
      | none => Platform.resolve name

end ClassPath

end ProcessorBench
