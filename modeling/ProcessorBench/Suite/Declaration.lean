import ProcessorBench.ClassFile.AnnotationText
import ProcessorBench.ClassName
import ProcessorBench.Suite.DiscoveryError
import ProcessorBench.Suite.Target

/-!
# Test declarations

A processor is a test if it carries the annotation `ProcessorTest`, which says where the marker goes and
what source is expected. `Declaration.ofContent` reads the annotation, as far as that is possible without
loading classes.
-/

namespace ProcessorBench

/-- Where the expected source is. -/
inductive ExpectedSource where
  /-- In a file below the place that is searched. -/
  | file (path : Path)
  /-- In the declaration, line by line. -/
  | inline (lines : List String)
  /-- Nowhere. -/
  | missing
deriving DecidableEq, Repr

/-- What a test declaration says. -/
structure Declaration where
  /-- The binary name of the marker annotation. -/
  marker : String
  target : Target
  expected : ExpectedSource
deriving DecidableEq, Repr

/-- The text of a string value. -/
def AnnotationValue.string? : AnnotationValue → Option String
  | .string text => some text
  | _ => none

/-- The values of an array that is not empty. -/
def AnnotationValue.values? : AnnotationValue → Option (List AnnotationValue)
  | .array values => if values.isEmpty then none else some values
  | _ => none

namespace Declaration

/-- The descriptor of the annotation that declares a test. -/
def descriptor : String := "Lorg/transparent/diamond/compiletest/ProcessorTest;"

/-- The marker of a declaration that names none. -/
def defaultMarker : String := "org.transparent.diamond.compiletest.AnnotationForTesting"

/-- The descriptor of the type of targets. -/
def elementTypeDescriptor : String := "Ljava/lang/annotation/ElementType;"

/-- The marker that a declaration names, which has to be the literal of an object class. -/
def markerOf (content : AnnotationContent) : Except UnsupportedReason String :=
  match content.element? "annotation" with
  | none => .ok defaultMarker
  | some (.classInfo descriptor) =>
    match ClassName.ofDescriptor? descriptor with
    | some name => .ok name
    | none => .error .markerIsOrdinaryType
  | some _ => .error .markerIsOrdinaryType

/-- The target that a declaration names. -/
def targetOf (content : AnnotationContent) : Except UnsupportedReason Target :=
  match content.element? "target" with
  | none => .error .missingTarget
  | some value =>
    match value with
    | .enumConst descriptor constant =>
      if descriptor = elementTypeDescriptor then
        match Target.ofElementType? constant with
        | some target => .ok target
        | none => .error (.targetConstant constant)
      else .error (.targetValue value.describe)
    | _ => .error (.targetValue value.describe)

/-- Where a declaration says the expected source is: in the file it names, or else in its lines. The
element with the lines has two names. Values in it that are no strings are passed over. -/
def expectedOf (content : AnnotationContent) : ExpectedSource :=
  match (content.element? "expectedFile").bind (·.string?) |>.filter (· ≠ "") with
  | some file => .file ⟨file⟩
  | none =>
    match ["expected", "source"].findSome? fun name => (content.element? name).bind (·.values?) with
    | some values => .inline (values.filterMap (·.string?))
    | none => .missing

/-- Read a declaration. -/
def ofContent (content : AnnotationContent) : Except UnsupportedReason Declaration := do
  let marker ← markerOf content
  let target ← targetOf content
  return { marker, target, expected := expectedOf content }

end Declaration

end ProcessorBench
