import ProcessorBench.Bytes.Basic
import ProcessorBench.FileTree.Path

/-!
# Trees of files

A `FileTree` is a file or a directory with all that is below it. The entries of a directory are kept in
the order of their names. A `Location` is a place in a tree, given by the names on the way to it, and
`FileTree.files` lists the files of a tree with their locations.
-/

namespace ProcessorBench

mutual

/-- A file or a directory. -/
inductive FileTree where
  | file (content : Bytes) (executable : Bool)
  | dir (entries : List DirEntry)

/-- A file or a directory in a directory, with its name there. -/
structure DirEntry where
  name : String
  tree : FileTree

end

/-- The names on the way from the root of a tree to a place in it. -/
abbrev Location := List String

namespace DirEntry

/-- What has the given name among some entries. -/
def find? (name : String) (entries : List DirEntry) : Option FileTree :=
  (entries.find? (·.name = name)).map (·.tree)

/-- Some entries without those of the given name. -/
def erase (name : String) (entries : List DirEntry) : List DirEntry :=
  entries.filter (·.name ≠ name)

/-- Put an entry in its place among entries of other names. -/
def insert (entry : DirEntry) : List DirEntry → List DirEntry
  | [] => [entry]
  | first :: rest =>
    if entry.name < first.name then entry :: first :: rest else first :: insert entry rest

/-- Give a name to a tree, or to nothing, in place of what it named before. -/
def set (name : String) (tree : Option FileTree) (entries : List DirEntry) : List DirEntry :=
  match tree with
  | some tree => insert ⟨name, tree⟩ (erase name entries)
  | none => erase name entries

end DirEntry

namespace FileTree

instance : Inhabited FileTree := ⟨.dir []⟩

/-- Whether a tree is a directory. -/
def isDir : FileTree → Bool
  | .dir _ => true
  | .file .. => false

/-- Whether a tree is a file. -/
def isFile : FileTree → Bool
  | .dir _ => false
  | .file .. => true

/-- The content of a file. -/
def content? : FileTree → Option Bytes
  | .file content _ => some content
  | .dir _ => none

/-- What is at a location. -/
def at? : FileTree → Location → Option FileTree
  | tree, [] => some tree
  | .dir entries, name :: rest => (DirEntry.find? name entries).bind (·.at? rest)
  | .file .., _ :: _ => none

/-- Put a tree, or nothing, at a location below a directory. Where there is no directory to put it into,
nothing changes. -/
def put (tree : Option FileTree) : FileTree → Location → FileTree
  | .dir entries, [name] => .dir (DirEntry.set name tree entries)
  | .dir entries, name :: rest =>
    match DirEntry.find? name entries with
    | some below => .dir (DirEntry.set name (some (put tree below rest)) entries)
    | none => .dir entries
  | whole, _ => whole

mutual

/-- The files of a tree with their locations, each directory in the order of its names. -/
def files : FileTree → List (Location × Bytes)
  | .file content _ => [([], content)]
  | .dir entries => filesOfEntries entries

/-- The files of some entries. -/
def filesOfEntries : List DirEntry → List (Location × Bytes)
  | [] => []
  | entry :: rest => filesOfEntry entry ++ filesOfEntries rest

/-- The files of an entry. -/
def filesOfEntry : DirEntry → List (Location × Bytes)
  | ⟨name, tree⟩ => tree.files.map fun (location, content) => (name :: location, content)

end

mutual

/-- Whether the entries of each directory have names, in order and all different. -/
def isWellFormed : FileTree → Bool
  | .file .. => true
  | .dir entries =>
    decide ((entries.map (·.name)).Pairwise (· < ·)) && areWellFormed entries

/-- Whether some entries have names, and all directories below them are well-formed. -/
def areWellFormed : List DirEntry → Bool
  | [] => true
  | ⟨name, tree⟩ :: rest => Path.isName name && tree.isWellFormed && areWellFormed rest

end

/-- A tree as there can be one on a disk. -/
def WellFormed (tree : FileTree) : Prop := tree.isWellFormed = true

end FileTree

end ProcessorBench
