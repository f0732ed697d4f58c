import ProcessorBench.FileTree.Basic
import ProcessorBench.Text.Utf8

/-!
# Disks

A `Disk` is a tree of files together with the working directory, from which relative paths start.
`Disk.locate` follows a path; reading and writing go through it. An operation that fails half-way leaves
what it has done, so that those which change a disk are steps of `DiskStep`.
-/

namespace ProcessorBench

/-- Why a file or a directory cannot be used. -/
inductive FileFault where
  /-- There is nothing at the path, or no directory on the way to it. -/
  | missing
  /-- Something on the way to the path is a file. -/
  | notDirectory
  | isDirectory
  | alreadyExists
  /-- The path is no text of names: it holds a zero. -/
  | invalidPath
  /-- The path, or a name in it, is longer than names and paths may be. -/
  | tooLong
  /-- The file cannot be run. -/
  | notExecutable
deriving DecidableEq, Repr

/-- A tree of files and the working directory in it. -/
structure Disk where
  tree : FileTree
  workingDirectory : Location

/-- A step that may change the disk, and may fail. What it has done before it fails remains. -/
abbrev DiskStep := EStateM FileFault Disk

namespace Disk

/-- The greatest number of bytes in a name. -/
def nameLimit : Nat := 255

/-- The greatest number of bytes in a path. -/
def pathLimit : Nat := 4095

/-- Follow the segments of a path from a directory, as far as they lead through directories that are
there. Only the last name may be of something that is not. -/
def follow (tree : FileTree) : Location → List String → Except FileFault Location
  | here, [] => .ok here
  | here, segment :: rest =>
    match tree.at? here with
    | none => .error .missing
    | some (.file ..) => .error .notDirectory
    | some (.dir _) =>
      match Path.Component.ofSegment? segment with
      | none => follow tree here rest
      | some .parent => follow tree here.dropLast rest
      | some _ =>
        if segment.utf8ByteSize > nameLimit then .error .tooLong
        else follow tree (here ++ [segment]) rest

/-- Refuse a path whose text cannot be one. -/
def checkPath (p : Path) : Except FileFault Unit :=
  if p.text.toList.contains '\x00' then .error .invalidPath
  else if p.text.utf8ByteSize > pathLimit then .error .tooLong
  else if p.text = "" then .error .missing
  else .ok ()

/-- The working directory as a path. -/
def workingPath (d : Disk) : Path := ⟨"/" ++ "/".intercalate d.workingDirectory⟩

/-- Where a path starts. -/
def start (d : Disk) (p : Path) : Location := if p.isAbsolute then [] else d.workingDirectory

/-- Where a path leads. -/
def locate (d : Disk) (p : Path) : Except FileFault Location := do
  checkPath p
  follow d.tree (d.start p) p.segments

/-- What a path leads to. -/
def lookup (d : Disk) (p : Path) : Except FileFault FileTree := do
  let location ← d.locate p
  match d.tree.at? location with
  | some tree => return tree
  | none => throw .missing

/-- Whether a path leads to a file. -/
def isFile (d : Disk) (p : Path) : Bool :=
  match d.lookup p with
  | .ok tree => tree.isFile
  | .error _ => false

/-- Whether a path leads to a directory. -/
def isDir (d : Disk) (p : Path) : Bool :=
  match d.lookup p with
  | .ok tree => tree.isDir
  | .error _ => false

/-- Whether a path leads to anything. -/
def exists? (d : Disk) (p : Path) : Bool := (d.lookup p).toBool

/-- The content of the file that a path leads to. -/
def read (d : Disk) (p : Path) : Except FileFault Bytes := do
  match ← d.lookup p with
  | .file content _ => return content
  | .dir _ => throw .isDirectory

/-- The text of the file that a path leads to, if it is one in UTF-8. -/
def readText? (d : Disk) (p : Path) : Option String :=
  match d.read p with
  | .ok content => Utf8.decode? content
  | .error _ => none

/-- Put a tree at a location. -/
def putAt (location : Location) (tree : Option FileTree) : DiskStep Unit :=
  modify fun d => { d with tree := d.tree.put tree location }

/-- Where a path leads, in a step. -/
def locating (p : Path) : DiskStep Location := do
  match (← get).locate p with
  | .ok location => return location
  | .error fault => throw fault

/-- Write a file. One that is there keeps its permission to be run. -/
def write (p : Path) (content : Bytes) : DiskStep Unit := do
  let location ← locating p
  match (← get).tree.at? location with
  | some (.file _ executable) => putAt location (some (.file content executable))
  | some (.dir _) => throw .isDirectory
  | none => putAt location (some (.file content false))

/-- Create a directory. -/
def createDir (p : Path) : DiskStep Unit := do
  let location ← locating p
  match (← get).tree.at? location with
  | some _ => throw .alreadyExists
  | none => putAt location (some (.dir []))

/-- Follow segments from a directory and create those directories that are not there. -/
def createFrom : Location → List String → DiskStep Unit
  | _, [] => return
  | here, segment :: rest => do
    match Path.Component.ofSegment? segment with
    | none => createFrom here rest
    | some .parent => createFrom here.dropLast rest
    | some _ =>
      if segment.utf8ByteSize > nameLimit then throw .tooLong
      let next := here ++ [segment]
      match (← get).tree.at? next with
      | some (.dir _) => createFrom next rest
      | some (.file ..) => throw .notDirectory
      | none =>
        putAt next (some (.dir []))
        createFrom next rest

/-- Create a directory together with those on the way to it. -/
def createDirAll (p : Path) : DiskStep Unit := do
  if p.text = "" then return
  match checkPath p with
  | .error fault => throw fault
  | .ok () => createFrom ((← get).start p) p.segments

/-- Put a file at a path, with the directories on the way to it. -/
def putFile (p : Path) (content : Bytes) (executable : Bool) : DiskStep Unit := do
  if let some parent := p.parent? then createDirAll parent
  putAt (← locating p) (some (.file content executable))

/-- A disk after a step, whether that fails or not. -/
def after {α : Type} (step : DiskStep α) (d : Disk) : Disk :=
  match step d with
  | .ok _ d | .error _ d => d

/-- The files below a path, with their paths from there. -/
def filesBelow (d : Disk) (p : Path) : List (Path × Bytes) :=
  match d.lookup p with
  | .ok tree => tree.files.map fun (location, content) => (Path.ofNames location, content)
  | .error _ => []

/-- Remove a directory with all that is in it. -/
def removeDirAll (p : Path) : DiskStep Unit := do
  let location ← locating p
  match (← get).tree.at? location with
  | some (.dir _) => putAt location none
  | some (.file ..) => throw .notDirectory
  | none => throw .missing

end Disk

end ProcessorBench
