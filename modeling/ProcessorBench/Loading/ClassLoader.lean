import ProcessorBench.Loading.ClassPath
import ProcessorBench.Loading.Supertypes

/-!
# Class loaders

A class loader defines the names of its own table, and asks its parent for all others. The parent is never
asked for a name of the table, even if it is there that loading fails.
-/

namespace ProcessorBench

/-- Who is asked for classes that are not in the table. -/
inductive ParentLoader where
  | platform
  | classPath (path : ClassPath)

/-- Ask the parent for a class. -/
def ParentLoader.resolve (disk : Disk) : ParentLoader → String → LoadStep Definition
  | .platform => Platform.resolve
  | .classPath path => path.resolve disk

/-- How many classes a parent can hold at most, those of the platform apart. -/
def ParentLoader.capacity (disk : Disk) : ParentLoader → Nat
  | .platform => 0
  | .classPath path => path.foldl (fun n place => n + place.capacity disk) 0

/-- A table of classes with a parent. -/
structure ClassLoader where
  /-- The bytes for each name. Of two for one name, the last count. -/
  table : List (String × Bytes)
  parent : ParentLoader

namespace ClassLoader

/-- The bytes for a name. -/
def bytesOf? (l : ClassLoader) (name : String) : Option Bytes := l.table.reverse.lookup name

/-- Whether a name is one of the table. -/
def owns (l : ClassLoader) (name : String) : Bool := (l.bytesOf? name).isSome

/-- The names of the table. -/
def names (l : ClassLoader) : List String := (l.table.map (·.1)).eraseDups

/-- Define a class of the table. Whatever is wrong with the bytes is reported under the name that they
are kept under. -/
def defineOwn (name : String) (bytes : Bytes) : Except LoadError LoadedClass :=
  match LoadedClass.ofBytes bytes .isolated with
  | .ok c => if c.name = name then .ok c else .error (.wrongName name c.name)
  | .error (.malformed _ source) => .error (.malformed name source)
  | .error e => .error e

/-- Load a class. -/
def load (l : ClassLoader) (disk : Disk) (name : String) : LoadStep Definition := do
  match l.bytesOf? name with
  | none => l.parent.resolve disk name
  | some bytes =>
    match ← LoadStep.known? .isolated name with
    | some definition => return definition
    | none => LoadStep.define .isolated name (← LoadStep.ofExcept (defineOwn name bytes))

/-- A number of names that no walk through supertypes exceeds. A class has at most 2¹⁶ direct supertypes, and
each class in a table, a directory or an archive has one name. Besides these there are only classes of
the platform, with at most four supertypes each. -/
def walkBound (l : ClassLoader) (disk : Disk) : Nat :=
  8 * UInt16.size * (l.table.length + l.parent.capacity disk + 2)

/-- The interfaces of a class. -/
def interfaces (l : ClassLoader) (disk : Disk) (c : LoadedClass) : LoadStep (List String) :=
  Supertypes.interfaces (fun name => return (← l.load disk name).content) (l.walkBound disk) c

/-- Whether a class implements an interface, by itself or through its supertypes. -/
def implements (l : ClassLoader) (disk : Disk) (c : LoadedClass) (interface : String) :
    LoadStep Bool :=
  return (← l.interfaces disk c).contains interface

end ClassLoader

end ProcessorBench
