import ProcessorBench.ClassFile.Reflection
import ProcessorBench.Loading.Error

/-!
# Loaded classes

What is kept of a class: as much as is needed to ask for its supertypes and its annotations.
-/

namespace ProcessorBench

/-- Where a class comes from. -/
inductive ClassOrigin where
  /-- From the table of a loader. -/
  | isolated
  /-- From a directory or an archive of a class path. -/
  | classPath (entry : Path)
  /-- From the platform. -/
  | platform
deriving DecidableEq, Repr

/-- A class as far as it matters who its supertypes are and what annotations it carries. -/
structure LoadedClass where
  /-- The binary name. -/
  name : String
  access : AccessFlags
  /-- The binary name of the superclass. Only the root of all classes has none. -/
  superName : Option String
  /-- The binary names of the interfaces that it declares. -/
  interfaces : List String
  /-- The annotations visible at run time. -/
  annotations : List AnnotationContent
  origin : ClassOrigin

namespace LoadedClass

/-- The name in reports of a class whose bytes do not even tell its name. -/
def unknownName : String := "<unknown>"

/-- What some bytes say about the class that they define. -/
def describe (c : ClassFile) (name : String) (origin : ClassOrigin) :
    Except ClassError LoadedClass := do
  let superName ← c.superName
  let interfaces ← c.interfaceNames
  let annotations ← c.visibleAnnotations
  return { name, access := c.access, superName, interfaces, annotations, origin }

/-- Define a class from its bytes. A fault is reported with the name of the class, if that can be found
out. -/
def ofBytes (bytes : Bytes) (origin : ClassOrigin) : Except LoadError LoadedClass := do
  let malformed (name : String) (e : ClassError) : LoadError := .malformed name e
  let c ← (ClassFile.parse bytes).mapError (malformed unknownName)
  let name ← c.name.mapError (malformed unknownName)
  (describe c name origin).mapError (malformed name)

/-- Whether the class is an annotation type. -/
def isAnnotationType (c : LoadedClass) : Bool := c.access.isAnnotationType

/-- Whether the class is an interface. -/
def isInterface (c : LoadedClass) : Bool := c.access.isInterface

/-- The first annotation of the given type. -/
def annotationOf? (c : LoadedClass) (descriptor : String) : Option AnnotationContent :=
  c.annotations.find? (·.descriptor = descriptor)

end LoadedClass

end ProcessorBench
