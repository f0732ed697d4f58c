import ProcessorBench.ClassFile.AnnotationValue
import ProcessorBench.ClassFile.Debug
import ProcessorBench.ClassName

/-!
# What a class says about itself

Names, members and annotations of a class, looked up in its pool. Each can fail by itself, when an
index it needs does not lead to a constant of the right kind.
-/

namespace ProcessorBench.ClassFile

/-- The binary name. -/
def name (c : ClassFile) : Except ClassError String :=
  return ClassName.ofInternal (← c.pool.className c.thisClass)

/-- The binary name of the superclass, if there is one. -/
def superName (c : ClassFile) : Except ClassError (Option String) :=
  if c.superClass = 0 then return none
  else return some (ClassName.ofInternal (← c.pool.className c.superClass))

/-- The binary names of the interfaces that the class declares. -/
def interfaceNames (c : ClassFile) : Except ClassError (List String) :=
  c.interfaces.mapM fun i => return ClassName.ofInternal (← c.pool.className i)

/-- The name and the descriptor of each of a list of members. -/
def signatures (pool : ConstantPool) (members : List Member) :
    Except ClassError (List (String × String)) :=
  members.mapM fun m => return (← pool.utf8 m.name, ← pool.utf8 m.descriptor)

/-- The name and the descriptor of each field. -/
def fieldSignatures (c : ClassFile) : Except ClassError (List (String × String)) :=
  signatures c.pool c.fields

/-- The name and the descriptor of each method. -/
def methodSignatures (c : ClassFile) : Except ClassError (List (String × String)) :=
  signatures c.pool c.methods

/-- The name of the attribute that holds annotations visible at run time. -/
def visibleAnnotationsName : String := "RuntimeVisibleAnnotations"

/-- The annotations an attribute holds that are visible at run time. -/
def visibleAnnotationsIn (pool : ConstantPool) (a : Attribute) :
    Except ClassError (List AnnotationContent) := do
  match a.body with
  | .annotations annotations =>
    if (← a.nameText pool) = visibleAnnotationsName then
      annotations.mapM (AnnotationInfo.resolve pool)
    else return []
  | _ => return []

/-- The annotations of the class that are visible at run time. -/
def visibleAnnotations (c : ClassFile) : Except ClassError (List AnnotationContent) :=
  return (← c.attributes.mapM (visibleAnnotationsIn c.pool)).flatten

end ProcessorBench.ClassFile
