import ProcessorBench.Loading.LoadedClass

/-!
# Definitions

A class is defined once by each of its definers, and whoever asks for it again gets the same definition.
Two definitions are the same if they have the same serial number. `LoadStep.define` is the only way to a
new definition; a step that fails defines nothing.
-/

namespace ProcessorBench

/-- Who defines classes. -/
inductive Definer where
  | isolated
  | classPath
  | platform
deriving DecidableEq, Repr

/-- A class that has been defined. -/
structure Definition where
  /-- The number of definitions that were made before it. -/
  serial : Nat
  content : LoadedClass

/-- The definitions made so far. -/
structure Definitions where
  known : List ((Definer × String) × Definition) := []
  count : Nat := 0

namespace Definitions

/-- The definition of a name by a definer. -/
def find? (d : Definitions) (definer : Definer) (name : String) : Option Definition :=
  d.known.lookup (definer, name)

/-- Add a new definition. -/
def add (d : Definitions) (definer : Definer) (name : String) (content : LoadedClass) :
    Definitions :=
  { known := ((definer, name), ⟨d.count, content⟩) :: d.known, count := d.count + 1 }

/-- The definitions that a new loader has to do with: those of its parent. -/
def withoutIsolated (d : Definitions) : Definitions :=
  { d with known := d.known.filter (·.1.1 ≠ .isolated) }

end Definitions

/-- A step in loading classes. It may define some, and it may fail. -/
abbrev LoadStep := EStateM LoadError Definitions

namespace LoadStep

/-- The definition of a name by a definer, if there is one. -/
def known? (definer : Definer) (name : String) : LoadStep (Option Definition) :=
  return (← get).find? definer name

/-- Define a name. -/
def define (definer : Definer) (name : String) (content : LoadedClass) : LoadStep Definition :=
  modifyGet fun d => (⟨d.count, content⟩, d.add definer name content)

/-- A result that depends on no definition. -/
def ofExcept {α : Type} : Except LoadError α → LoadStep α
  | .ok a => return a
  | .error e => throw e

end LoadStep

end ProcessorBench
