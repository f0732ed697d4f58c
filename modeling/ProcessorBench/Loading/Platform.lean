import ProcessorBench.Loading.Definitions

/-!
# Platform classes

The classes that are always there. Only their supertypes matter, and whether they are annotation types, so
that a table of those with supertypes of their own will do: every other class in a package of the platform
is a class without interfaces.
-/

namespace ProcessorBench.Platform

/-- The root of all classes. -/
def rootClass : String := "java.lang.Object"

/-- The interface of all annotation types. -/
def annotationInterface : String := "java.lang.annotation.Annotation"

/-- The interface of annotation processors. -/
def processorInterface : String := "javax.annotation.processing.Processor"

/-- The interfaces, each with those that it extends. -/
def interfaces : List (String × List String) :=
  [(processorInterface, []), (annotationInterface, []), ("java.io.Serializable", []),
   ("java.lang.Comparable", []), ("java.lang.CharSequence", []), ("java.lang.Runnable", []),
   ("java.lang.AutoCloseable", []), ("java.io.Closeable", ["java.lang.AutoCloseable"])]

/-- The classes with interfaces, or whose superclass is asked for. -/
def classes : List (String × List String) :=
  [("javax.annotation.processing.AbstractProcessor", [processorInterface]),
   ("java.lang.String",
    ["java.io.Serializable", "java.lang.Comparable", "java.lang.CharSequence"]),
   ("java.lang.Enum", ["java.lang.Comparable", "java.io.Serializable"]), ("java.lang.Record", [])]

/-- The annotation types. -/
def annotationTypes : List String :=
  ["java.lang.Deprecated", "java.lang.Override", "java.lang.SuppressWarnings",
   "java.lang.SafeVarargs", "java.lang.FunctionalInterface", "java.lang.annotation.Documented",
   "java.lang.annotation.Inherited", "java.lang.annotation.Retention",
   "java.lang.annotation.Target", "java.lang.annotation.Repeatable",
   "java.lang.annotation.Native", "javax.annotation.Generated",
   "javax.annotation.processing.Generated", "javax.annotation.processing.SupportedAnnotationTypes",
   "javax.annotation.processing.SupportedOptions",
   "javax.annotation.processing.SupportedSourceVersion"]

/-- What the names of all classes of the platform start with. -/
def packages : List String := ["java.", "javax.", "jdk.", "sun.", "com.sun."]

/-- Whether a name starts with another text. -/
def startsWith (start name : String) : Bool := start.toList.isPrefixOf name.toList

/-- Whether a name is one of the platform. -/
def owns (name : String) : Bool := packages.any (startsWith · name)

/-- A class of the platform. -/
def classOf (name : String) (access : AccessFlags) (superName : Option String)
    (interfaces : List String) : LoadedClass :=
  { name, access, superName, interfaces, annotations := [], origin := .platform }

/-- The flags of an interface. -/
def interfaceAccess : AccessFlags := ⟨0x0601⟩

/-- The flags of an annotation type. -/
def annotationTypeAccess : AccessFlags := ⟨0x2601⟩

/-- The class of a name, if the platform has it. -/
def find? (name : String) : Option LoadedClass :=
  if name = rootClass then some (classOf name .isPublic none [])
  else if let some supers := interfaces.lookup name then
    some (classOf name interfaceAccess rootClass supers)
  else if let some supers := classes.lookup name then
    some (classOf name .isPublic rootClass supers)
  else if annotationTypes.contains name then
    some (classOf name annotationTypeAccess rootClass [annotationInterface])
  else if owns name then some (classOf name .isPublic rootClass [])
  else none

/-- Ask the platform for a class. -/
def resolve (name : String) : LoadStep Definition := do
  match ← LoadStep.known? .platform name with
  | some definition => return definition
  | none =>
    match find? name with
    | some content => LoadStep.define .platform name content
    | none => throw (.notFound name)

end ProcessorBench.Platform
