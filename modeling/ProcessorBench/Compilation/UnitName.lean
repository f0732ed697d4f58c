import ProcessorBench.FileTree.Path

/-!
# Names of units

A unit is a source file or a class file, named by its place below a directory: `com.example.Foo` is at
`com/example/Foo.java`. `UnitName.path?` gives the place of a name, `UnitName.ofPath?` the name of a place.
-/

namespace ProcessorBench.UnitName

/-- Whether a segment of a name can be the name of a file: it is not empty and holds no slash, neither
forward nor backward. Since a segment holds no point, it is neither `.` nor `..`. -/
def isPlain (segment : String) : Bool :=
  segment ≠ "" && segment.toList.all fun c => c ≠ '/' && c ≠ '\\'

/-- An extension with the point before it. Files without an extension have no point. -/
def suffix (extension : String) : String := if extension = "" then "" else "." ++ extension

/-- Where the unit of a name is, below the directory of all units; `none` for a name of no unit. -/
def path? (unit extension : String) : Option Path :=
  let segments := Text.splitOn '.' unit
  if segments.all isPlain then some ⟨"/".intercalate segments ++ suffix extension⟩ else none

/-- A text without the given end, or `none` if it ends otherwise. -/
def dropEnd? (ending text : List Char) : Option (List Char) :=
  if ending.isSuffixOf text then some (text.take (text.length - ending.length)) else none

/-- The name of the unit that is reached by the given names of directories and of a file. Only an extension
with a point before it is left out, and nothing has no name. -/
def ofNames? (names : List String) (extension : String) : Option String :=
  let joined := ".".intercalate names
  let stem := (dropEnd? extension.toList joined.toList).bind (dropEnd? ['.'])
  let name := stem.elim joined String.ofList
  if name = "" then none else some name

/-- The name in a step of a path that goes down. -/
def nameOf? : Path.Component → Option String
  | .normal name => some name
  | _ => none

/-- The name of the unit at a path, which has to go down at each step. -/
def ofPath? (path : Path) (extension : String) : Option String := do
  ofNames? (← path.components.mapM nameOf?) extension

end ProcessorBench.UnitName
