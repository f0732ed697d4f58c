import ProcessorBench.ClassFile.Normal
import ProcessorBench.ClassFile.Reflection

/-!
# Building class files

A builder collects the parts of a class and interns the constants they need. A step that fails is
remembered: the steps after it add nothing, and `ClassBuilder.build?` reports the first failure.
-/

namespace ProcessorBench

/-- A method body under construction. -/
structure MethodBody where
  maxStack : UInt16
  maxLocals : UInt16
  code : Bytes
  /-- Offsets into the code with their line numbers. -/
  lines : List (UInt16 × UInt16)

/-! ## Lowering annotations -/

mutual

/-- Intern a value. A number that fits 32 bits becomes an `int`, any other a `long`. -/
def AnnotationValue.lower : AnnotationValue → PoolStep ElementValue
  | .int value =>
    if value.toInt = value.toInt32.toInt then
      return .const .int (← PoolBuilder.intern (.integer value.toInt32))
    else return .const .long (← PoolBuilder.intern (.long value))
  | .float bits => return .const .double (← PoolBuilder.intern (.double bits))
  | .bool value =>
    return .const .boolean (← PoolBuilder.intern (.integer (if value then 1 else 0)))
  | .char value =>
    return .const .char (← PoolBuilder.intern (.integer value.val.toInt32))
  | .string text => return .const .string (← PoolBuilder.utf8 text)
  | .enumConst descriptor constant => do
    let descriptor ← PoolBuilder.utf8 descriptor
    return .enumConst descriptor (← PoolBuilder.utf8 constant)
  | .classInfo descriptor => return .classInfo (← PoolBuilder.utf8 descriptor)
  | .nested value => return .nested (← value.lower)
  | .array values => return .array (← AnnotationValue.lowerList values)

/-- Intern a list of values. -/
def AnnotationValue.lowerList : List AnnotationValue → PoolStep (List ElementValue)
  | [] => return []
  | value :: values => do
    let value ← value.lower
    return value :: (← AnnotationValue.lowerList values)

/-- Intern an annotation: its type, then for each element its name and its value. -/
def AnnotationContent.lower : AnnotationContent → PoolStep AnnotationInfo
  | ⟨descriptor, elements⟩ => do
    let type ← PoolBuilder.utf8 descriptor
    return ⟨type, ← ResolvedElement.lowerList elements⟩

/-- Intern a list of elements. -/
def ResolvedElement.lowerList : List ResolvedElement → PoolStep (List Element)
  | [] => return []
  | element :: elements => do
    let element ← element.lower
    return element :: (← ResolvedElement.lowerList elements)

/-- Intern an element. -/
def ResolvedElement.lower : ResolvedElement → PoolStep Element
  | ⟨name, value⟩ => do
    let name ← PoolBuilder.utf8 name
    return ⟨name, ← value.lower⟩

end

/-! ## The builder -/

/-- The parts of a class that have been added so far. -/
structure ClassParts where
  majorVersion : UInt16
  access : AccessFlags
  thisClass : PoolIndex
  superClass : PoolIndex
  interfaces : Array PoolIndex
  fields : Array Member
  methods : Array Member
  attributes : Array Attribute

/-- A class under construction. -/
structure ClassBuilder where
  pool : PoolBuilder
  parts : ClassParts
  /-- The first failure. -/
  failure : Option ClassError

namespace ClassBuilder

/-- Add parts that need constants, unless a step has failed. -/
def extend : ClassBuilder → PoolStep (ClassParts → ClassParts) → ClassBuilder
  | ⟨pool, parts, none⟩, step =>
    match step pool with
    | .ok add pool => ⟨pool, add parts, none⟩
    | .error e pool => ⟨pool, parts, some e⟩
  | b, _ => b

/-- The class of an object by its binary name. -/
def classIndex (name : String) : PoolStep PoolIndex :=
  PoolBuilder.classInfo (ClassName.toInternal name)

/-- The major version of the class files that are built, unless it is set. -/
def defaultMajorVersion : UInt16 := 52

/-- A public class without a name. -/
def unnamed : ClassBuilder :=
  { pool := .empty
    parts :=
      { majorVersion := defaultMajorVersion, access := .isPublic ||| .hasSuper
        thisClass := 0, superClass := 0
        interfaces := #[], fields := #[], methods := #[], attributes := #[] }
    failure := none }

/-- How a class gets its name, and the root of all classes above it. -/
def naming (name : String) : PoolStep (ClassParts → ClassParts) := do
  let thisClass ← classIndex name
  let superClass ← PoolBuilder.classInfo "java/lang/Object"
  return fun c => { c with thisClass, superClass }

/-- A public class that extends the root of all classes. -/
def ofName (name : String) : ClassBuilder := unnamed.extend (naming name)

/-- Set the access flags. -/
def access (b : ClassBuilder) (flags : AccessFlags) : ClassBuilder :=
  { b with parts := { b.parts with access := flags } }

/-- Set the major version. -/
def majorVersion (b : ClassBuilder) (major : UInt16) : ClassBuilder :=
  { b with parts := { b.parts with majorVersion := major } }

/-- Set the superclass, or leave it out. -/
def superClass (b : ClassBuilder) (name : Option String) : ClassBuilder :=
  b.extend do
    match name with
    | some name =>
      let index ← classIndex name
      return fun c => { c with superClass := index }
    | none => return fun c => { c with superClass := 0 }

/-- Add an interface. -/
def interface (b : ClassBuilder) (name : String) : ClassBuilder :=
  b.extend do
    let index ← classIndex name
    return fun c => { c with interfaces := c.interfaces.push index }

/-- A public annotation type. -/
def annotationType (name : String) : ClassBuilder :=
  ((ofName name).access
    (.isPublic ||| .interfaceFlag ||| .abstractFlag ||| .annotationFlag)).interface
    "java.lang.annotation.Annotation"

/-- A member without attributes. -/
def member (access : AccessFlags) (name descriptor : String) : PoolStep Member := do
  let name ← PoolBuilder.utf8 name
  let descriptor ← PoolBuilder.utf8 descriptor
  return { access, name, descriptor, attributes := [] }

/-- Add a field. -/
def field (b : ClassBuilder) (access : AccessFlags) (name descriptor : String) : ClassBuilder :=
  b.extend do
    let m ← member access name descriptor
    return fun c => { c with fields := c.fields.push m }

/-- Add a public method without a body. -/
def abstractMethod (b : ClassBuilder) (name descriptor : String) : ClassBuilder :=
  b.extend do
    let m ← member (.isPublic ||| .abstractFlag) name descriptor
    return fun c => { c with methods := c.methods.push m }

/-- The attribute that holds a table of line numbers, if there are any. -/
def lineNumberAttributes (lines : List (UInt16 × UInt16)) : PoolStep (List Attribute) := do
  if lines.isEmpty then return []
  unless lines.length < UInt16.size do throw (.overflow .lineNumbers)
  let name ← PoolBuilder.utf8 "LineNumberTable"
  let table := lines.flatMap fun (pc, line) => Bytes.ofUInt16 pc ++ Bytes.ofUInt16 line
  return [⟨name, .raw (Bytes.ofNat 2 lines.length ++ table)⟩]

/-- The attribute that holds a method's code. -/
def codeAttribute (body : MethodBody) : PoolStep Attribute := do
  let attributes ← lineNumberAttributes body.lines
  let name ← PoolBuilder.utf8 "Code"
  return ⟨name, .code
    { maxStack := body.maxStack, maxLocals := body.maxLocals, code := body.code, handlers := []
      attributes }⟩

/-- Add a method with a body, whose code may hold indices of constants that it interns. -/
def method (b : ClassBuilder) (access : AccessFlags) (name descriptor : String)
    (body : PoolStep MethodBody) : ClassBuilder :=
  b.extend do
    let m ← member access name descriptor
    let code ← codeAttribute (← body)
    return fun c => { c with methods := c.methods.push { m with attributes := [code] } }

/-- Add a public constructor that calls the superclass's: `aload_0`, `invokespecial`, `return`. -/
def defaultConstructor (b : ClassBuilder) : ClassBuilder :=
  b.method .isPublic "<init>" "()V" do
    let nameAndType ← PoolBuilder.nameAndType "<init>" "()V"
    let init ← PoolBuilder.intern (.methodRef b.parts.superClass nameAndType)
    return { maxStack := 1, maxLocals := 1, lines := []
             code := [0x2a, 0xb7] ++ Bytes.ofUInt16 init ++ [0xb1] }

/-- An index as the operand of a one-byte load. -/
def narrowOperand (index : PoolIndex) : PoolStep UInt8 :=
  if index < 256 then return UInt8.ofNat index.toNat else throw (.overflow .loadOperand)

/-- Add a public method that returns a string: `ldc`, `areturn`. -/
def stringMethod (b : ClassBuilder) (name value : String) : ClassBuilder :=
  b.method .isPublic name "()Ljava/lang/String;" do
    let operand ← narrowOperand (← PoolBuilder.string value)
    return { maxStack := 1, maxLocals := 1, lines := [], code := [0x12, operand, 0xb0] }

/-- Add the name of the source file. -/
def sourceFile (b : ClassBuilder) (file : String) : ClassBuilder :=
  b.extend do
    let name ← PoolBuilder.utf8 "SourceFile"
    let value ← PoolBuilder.utf8 file
    return fun c => { c with attributes := c.attributes.push ⟨name, .sourceFile value⟩ }

/-- Whether an attribute holds annotations. -/
def holdsAnnotations (a : Attribute) : Bool :=
  match a.body with
  | .annotations _ => true
  | _ => false

/-- An attribute that holds annotations, with one more. -/
def addAnnotationTo (added : AnnotationInfo) : Attribute → Attribute
  | ⟨name, .annotations annotations⟩ => ⟨name, .annotations (annotations ++ [added])⟩
  | a => a

/-- Add an annotation that is visible at run time, to the first attribute that holds annotations or in
a new one. -/
def annotate (b : ClassBuilder) (content : AnnotationContent) : ClassBuilder :=
  b.extend do
    let lowered ← content.lower
    match b.parts.attributes.findIdx? holdsAnnotations with
    | some i => return fun c => { c with attributes := c.attributes.modify i (addAnnotationTo lowered) }
    | none =>
      let name ← PoolBuilder.utf8 ClassFile.visibleAnnotationsName
      return fun c => { c with attributes := c.attributes.push ⟨name, .annotations [lowered]⟩ }

/-- The class file built, or the first failure. -/
def build? (b : ClassBuilder) : Except ClassError ClassFile :=
  match b.failure with
  | some e => .error e
  | none =>
    .ok
      { minorVersion := 0, majorVersion := b.parts.majorVersion, access := b.parts.access
        thisClass := b.parts.thisClass, superClass := b.parts.superClass
        interfaces := b.parts.interfaces.toList, fields := b.parts.fields.toList
        methods := b.parts.methods.toList, attributes := b.parts.attributes.toList
        pool := b.pool.pool }

/-- The bytes of the class file built. -/
def toBytes (b : ClassBuilder) : Except ClassError Bytes := do
  (← b.build?).toBytes

end ClassBuilder

end ProcessorBench
