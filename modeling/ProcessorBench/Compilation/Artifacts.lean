import ProcessorBench.Compilation.Workspace

/-!
# Artifacts

The files that a compilation leaves behind, by name: classes by their binary name, other files by their
place with points between the names. `ArtifactSet.collect` reads them from a directory, and
`ArtifactSet.writeTo` puts them into another.
-/

namespace ProcessorBench

/-- A file that a compilation has left behind. -/
structure Artifact where
  /-- Its place below the directory of all of them. -/
  location : Location
  content : Bytes
deriving DecidableEq, Repr

/-- The place of an artifact as a path. -/
def Artifact.path (a : Artifact) : Path := .ofNames a.location

/-- Whether an artifact is a class. -/
def Artifact.isClass (a : Artifact) : Bool :=
  a.location.getLast?.bind Path.extensionOf? = some "class"

/-- Artifacts by name, in the order of their names. -/
structure ArtifactSet where
  entries : List (String × Artifact) := []
deriving DecidableEq, Repr

namespace ArtifactSet

/-- Put an artifact in the place of its name. -/
def place (name : String) (a : Artifact) : List (String × Artifact) → List (String × Artifact)
  | [] => [(name, a)]
  | (name', a') :: rest =>
    if name < name' then (name, a) :: (name', a') :: rest
    else if name = name' then (name, a) :: rest
    else (name', a') :: place name a rest

/-- Add an artifact. Another one of the name is given up. -/
def insert (s : ArtifactSet) (name : String) (a : Artifact) : ArtifactSet :=
  ⟨place name a s.entries⟩

/-- The artifact of a name. -/
def find? (s : ArtifactSet) (name : String) : Option Artifact := s.entries.lookup name

/-- Whether there is an artifact of a name. -/
def contains (s : ArtifactSet) (name : String) : Bool := (s.find? name).isSome

/-- The names in order. -/
def names (s : ArtifactSet) : List String := s.entries.map (·.1)

/-- How many artifacts there are. -/
def size (s : ArtifactSet) : Nat := s.entries.length

/-- Whether there is no artifact. -/
def isEmpty (s : ArtifactSet) : Bool := s.entries.isEmpty

/-- The classes among the artifacts, with their bytes. -/
def classes (s : ArtifactSet) : List (String × Bytes) :=
  (s.entries.filter (·.2.isClass)).map fun (name, a) => (name, a.content)

/-- Gather files by name. A file whose place gives no name is a fault. -/
def ofFiles : ArtifactSet → List (Location × Bytes) → Except CompileError ArtifactSet
  | s, [] => .ok s
  | s, (location, content) :: rest =>
    match UnitName.ofNames? location "class" with
    | none => .error (.invalidUnitName (Path.ofNames location).text)
    | some name => ofFiles (s.insert name ⟨location, content⟩) rest

/-- Read all files below a directory. -/
def collect (disk : Disk) (root : Path) : Except CompileError ArtifactSet :=
  match disk.lookup root with
  | .error _ => .error (.io .walk root)
  | .ok tree => ofFiles {} tree.files

/-- Write all artifacts below a directory, each to its place. -/
def writeTo (s : ArtifactSet) (dir : Path) : HostStep CompileError Unit :=
  s.entries.forM fun (_, a) => Workspace.writeFile (dir.join a.path) a.content

end ArtifactSet

end ProcessorBench
