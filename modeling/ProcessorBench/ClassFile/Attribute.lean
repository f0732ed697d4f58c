import ProcessorBench.ClassFile.AnnotationInfo
import ProcessorBench.ClassFile.Pool

/-!
# Attributes

An attribute has a name and a body. A body that refers to constants is taken apart, so that its
references can be replaced; any other body is kept as bytes. Attributes nest: a method's code and a
record's components have attributes of their own.

Two things are parameters: the type `ι` of references, and the type `β` of code. In a file they are
pool indices and bytes (`Attribute`).
-/

namespace ProcessorBench

/-- An entry of a method's exception table. -/
structure ExceptionHandlerOf (ι : Type) where
  startPc : UInt16
  endPc : UInt16
  handlerPc : UInt16
  /-- The class of exceptions; index 0 stands for all. -/
  catchType : ι

/-- An entry of the table of inner classes. -/
structure InnerClassOf (ι : Type) where
  inner : ι
  /-- Index 0 when the class is no member. -/
  outer : ι
  /-- Index 0 when the class is anonymous. -/
  name : ι
  access : UInt16

/-- An entry of the table of bootstrap methods. -/
structure BootstrapMethodOf (ι : Type) where
  handle : ι
  arguments : List ι

mutual

/-- The body of an attribute. -/
inductive AttributeBodyOf (ι β : Type) where
  | code (code : CodeOf ι β)
  | constantValue (value : ι)
  | exceptions (classes : List ι)
  | signature (text : ι)
  | sourceFile (name : ι)
  | innerClasses (classes : List (InnerClassOf ι))
  /-- The enclosing class, and the name and type of the enclosing method or index 0. -/
  | enclosingMethod (owner method : ι)
  | nestHost (host : ι)
  | nestMembers (classes : List ι)
  | permittedSubclasses (classes : List ι)
  | bootstrapMethods (methods : List (BootstrapMethodOf ι))
  | record (components : List (RecordComponentOf ι β))
  | annotationDefault (value : ElementValueOf ι)
  | annotations (annotations : List (AnnotationOf ι))
  | parameterAnnotations (parameters : List (List (AnnotationOf ι)))
  | typeAnnotations (annotations : List (TypeAnnotationOf ι))
  /-- A body without contents. -/
  | marker
  /-- A body that is not taken apart. -/
  | raw (bytes : Bytes)

/-- An attribute: its name and its body. -/
structure AttributeOf (ι β : Type) where
  name : ι
  body : AttributeBodyOf ι β

/-- The code of a method. -/
structure CodeOf (ι β : Type) where
  maxStack : UInt16
  maxLocals : UInt16
  code : β
  handlers : List (ExceptionHandlerOf ι)
  attributes : List (AttributeOf ι β)

/-- A component of a record. -/
structure RecordComponentOf (ι β : Type) where
  name : ι
  descriptor : ι
  attributes : List (AttributeOf ι β)

end

/-- An exception handler as a class file stores it. -/
abbrev ExceptionHandler := ExceptionHandlerOf PoolIndex

/-- An inner class as a class file stores it. -/
abbrev InnerClass := InnerClassOf PoolIndex

/-- A bootstrap method as a class file stores it. -/
abbrev BootstrapMethod := BootstrapMethodOf PoolIndex

/-- An attribute as a class file stores it. -/
abbrev Attribute := AttributeOf PoolIndex Bytes

/-- An attribute body as a class file stores it. -/
abbrev AttributeBody := AttributeBodyOf PoolIndex Bytes

/-- Code as a class file stores it. -/
abbrev Code := CodeOf PoolIndex Bytes

/-- A record component as a class file stores it. -/
abbrev RecordComponent := RecordComponentOf PoolIndex Bytes

/-! ## Kinds of bodies -/

/-- The layouts a body can have. -/
inductive AttributeKind where
  | code
  | constantValue
  | exceptions
  | signature
  | sourceFile
  | innerClasses
  | enclosingMethod
  | nestHost
  | nestMembers
  | permittedSubclasses
  | bootstrapMethods
  | record
  | annotationDefault
  | annotations
  | parameterAnnotations
  | typeAnnotations
  | marker
  | raw
deriving DecidableEq, Repr

/-- The layout that an attribute's name announces. A name that is not listed announces bytes. -/
def AttributeKind.ofName (name : String) : AttributeKind :=
  match name with
  | "Code" => .code
  | "ConstantValue" => .constantValue
  | "Exceptions" => .exceptions
  | "Signature" => .signature
  | "SourceFile" => .sourceFile
  | "InnerClasses" => .innerClasses
  | "EnclosingMethod" => .enclosingMethod
  | "NestHost" => .nestHost
  | "NestMembers" => .nestMembers
  | "PermittedSubclasses" => .permittedSubclasses
  | "BootstrapMethods" => .bootstrapMethods
  | "Record" => .record
  | "AnnotationDefault" => .annotationDefault
  | "RuntimeVisibleAnnotations" | "RuntimeInvisibleAnnotations" => .annotations
  | "RuntimeVisibleParameterAnnotations" | "RuntimeInvisibleParameterAnnotations" =>
    .parameterAnnotations
  | "RuntimeVisibleTypeAnnotations" | "RuntimeInvisibleTypeAnnotations" => .typeAnnotations
  | "Deprecated" | "Synthetic" => .marker
  | _ => .raw

/-- The layout of a body. -/
def AttributeBodyOf.kind {ι β : Type} : AttributeBodyOf ι β → AttributeKind
  | .code _ => .code
  | .constantValue _ => .constantValue
  | .exceptions _ => .exceptions
  | .signature _ => .signature
  | .sourceFile _ => .sourceFile
  | .innerClasses _ => .innerClasses
  | .enclosingMethod .. => .enclosingMethod
  | .nestHost _ => .nestHost
  | .nestMembers _ => .nestMembers
  | .permittedSubclasses _ => .permittedSubclasses
  | .bootstrapMethods _ => .bootstrapMethods
  | .record _ => .record
  | .annotationDefault _ => .annotationDefault
  | .annotations _ => .annotations
  | .parameterAnnotations _ => .parameterAnnotations
  | .typeAnnotations _ => .typeAnnotations
  | .marker => .marker
  | .raw _ => .raw

/-! ## Reading -/

section
open Reader

/-- Read an entry of an exception table. -/
def ExceptionHandler.read : Reader ClassError ExceptionHandler :=
  return ⟨← u16, ← u16, ← u16, ← u16⟩

/-- Read an entry of the table of inner classes. -/
def InnerClass.read : Reader ClassError InnerClass :=
  return ⟨← u16, ← u16, ← u16, ← u16⟩

/-- Read an entry of the table of bootstrap methods. -/
def BootstrapMethod.read : Reader ClassError BootstrapMethod :=
  return ⟨← u16, ← counted u16⟩

/-- Read a body of the given layout. `nested` reads the attributes inside it, and `depth` bounds the
nesting of element values. -/
def AttributeBody.read (nested : Reader ClassError Attribute) (depth : Nat) :
    AttributeKind → Reader ClassError AttributeBody
  | .code => do
    let maxStack ← u16
    let maxLocals ← u16
    let code ← take (← number 4)
    let handlers ← counted ExceptionHandler.read
    let attributes ← counted nested
    return .code { maxStack, maxLocals, code, handlers, attributes }
  | .constantValue => return .constantValue (← u16)
  | .exceptions => return .exceptions (← counted u16)
  | .signature => return .signature (← u16)
  | .sourceFile => return .sourceFile (← u16)
  | .innerClasses => return .innerClasses (← counted InnerClass.read)
  | .enclosingMethod => return .enclosingMethod (← u16) (← u16)
  | .nestHost => return .nestHost (← u16)
  | .nestMembers => return .nestMembers (← counted u16)
  | .permittedSubclasses => return .permittedSubclasses (← counted u16)
  | .bootstrapMethods => return .bootstrapMethods (← counted BootstrapMethod.read)
  | .record => do
    let components ← counted do
      let name ← u16
      let descriptor ← u16
      let attributes ← counted nested
      return { name, descriptor, attributes }
    return .record components
  | .annotationDefault => return .annotationDefault (← ElementValue.read depth)
  | .annotations => return .annotations (← counted (AnnotationInfo.read depth))
  | .parameterAnnotations => do
    let parameters ← u8
    return .parameterAnnotations (← times (counted (AnnotationInfo.read depth)) parameters.toNat)
  | .typeAnnotations => return .typeAnnotations (← counted (TypeAnnotationInfo.read depth))
  | .marker => return .marker
  | .raw => return .raw (← takeAll)

/-- Read a body that has to take up all of `data`, where `name` is the name of its attribute. -/
def AttributeBody.readWhole (name : String) (body : Reader ClassError AttributeBody)
    (data : Bytes) : Except ClassError AttributeBody :=
  match body data with
  | .ok (body, []) => .ok body
  | .ok (_, rest) => .error (.trailingBytes name rest.length)
  | .error (.shortfall ..) => .error (.bodyTooShort name)
  | .error (.refused cause) => .error cause

/-- Read an attribute whose attributes nest below a bound. Each level takes six bytes at least, so a
bound above the number of bytes is never reached. -/
def Attribute.read (pool : ConstantPool) : (depth : Nat) → Reader ClassError Attribute
  | 0 => exhausted
  | depth + 1 => do
    let name ← u16
    let data ← take (← number 4)
    let text ← ofExcept (pool.utf8 name)
    let body ← ofExcept <| AttributeBody.readWhole text
      (AttributeBody.read (Attribute.read pool depth) (data.length + 1)
        (AttributeKind.ofName text)) data
    return ⟨name, body⟩

end

/-! ## Writing -/

/-- The bytes of a list of indices behind its count. -/
def indexListBytes (indices : List PoolIndex) : Bytes :=
  Bytes.ofNat 2 indices.length ++ indices.flatMap Bytes.ofUInt16

/-- The bytes of an entry of an exception table. -/
def ExceptionHandler.bytes (h : ExceptionHandler) : Bytes :=
  Bytes.ofUInt16 h.startPc ++ Bytes.ofUInt16 h.endPc ++ Bytes.ofUInt16 h.handlerPc ++
    Bytes.ofUInt16 h.catchType

/-- The bytes of an entry of the table of inner classes. -/
def InnerClass.bytes (c : InnerClass) : Bytes :=
  Bytes.ofUInt16 c.inner ++ Bytes.ofUInt16 c.outer ++ Bytes.ofUInt16 c.name ++
    Bytes.ofUInt16 c.access

/-- The bytes of an entry of the table of bootstrap methods. -/
def BootstrapMethod.bytes (m : BootstrapMethod) : Bytes :=
  Bytes.ofUInt16 m.handle ++ indexListBytes m.arguments

mutual

/-- The bytes of a body. -/
def AttributeBody.bytes : AttributeBody → Bytes
  | .code ⟨maxStack, maxLocals, code, handlers, attributes⟩ =>
    Bytes.ofUInt16 maxStack ++ (Bytes.ofUInt16 maxLocals ++
      (Bytes.ofNat 4 code.length ++ (code ++
        (Bytes.ofNat 2 handlers.length ++ (handlers.flatMap ExceptionHandler.bytes ++
          (Bytes.ofNat 2 attributes.length ++ Attribute.bytesList attributes))))))
  | .constantValue i | .signature i | .sourceFile i | .nestHost i => Bytes.ofUInt16 i
  | .exceptions indices | .nestMembers indices | .permittedSubclasses indices =>
    indexListBytes indices
  | .innerClasses classes => Bytes.ofNat 2 classes.length ++ classes.flatMap InnerClass.bytes
  | .enclosingMethod owner method => Bytes.ofUInt16 owner ++ Bytes.ofUInt16 method
  | .bootstrapMethods methods =>
    Bytes.ofNat 2 methods.length ++ methods.flatMap BootstrapMethod.bytes
  | .record components =>
    Bytes.ofNat 2 components.length ++ RecordComponent.bytesList components
  | .annotationDefault value => ElementValue.bytes value
  | .annotations annotations =>
    Bytes.ofNat 2 annotations.length ++ annotations.flatMap AnnotationInfo.bytes
  | .parameterAnnotations parameters =>
    Bytes.ofNat 1 parameters.length ++ parameters.flatMap fun annotations =>
      Bytes.ofNat 2 annotations.length ++ annotations.flatMap AnnotationInfo.bytes
  | .typeAnnotations annotations =>
    Bytes.ofNat 2 annotations.length ++ annotations.flatMap TypeAnnotationInfo.bytes
  | .marker => []
  | .raw bytes => bytes

/-- The bytes of an attribute: its name, the length of its body, and the body. -/
def Attribute.bytes : Attribute → Bytes
  | ⟨name, body⟩ =>
    let contents := AttributeBody.bytes body
    Bytes.ofUInt16 name ++ (Bytes.ofNat 4 contents.length ++ contents)

/-- The bytes of a list of attributes, without its count. -/
def Attribute.bytesList : List Attribute → Bytes
  | [] => []
  | a :: attributes => Attribute.bytes a ++ Attribute.bytesList attributes

/-- The bytes of a record component. -/
def RecordComponent.bytes : RecordComponent → Bytes
  | ⟨name, descriptor, attributes⟩ =>
    Bytes.ofUInt16 name ++ (Bytes.ofUInt16 descriptor ++
      (Bytes.ofNat 2 attributes.length ++ Attribute.bytesList attributes))

/-- The bytes of a list of record components, without its count. -/
def RecordComponent.bytesList : List RecordComponent → Bytes
  | [] => []
  | component :: components =>
    RecordComponent.bytes component ++ RecordComponent.bytesList components

end

mutual

/-- Whether the counts of a body fit their fields; the error is the first that does not, in the order
in which they are written. -/
def AttributeBody.check : AttributeBody → Except ClassError Unit
  | .code ⟨_, _, code, handlers, attributes⟩ => do
    unless code.length < UInt32.size do throw (.overflow .codeLength)
    checkCount handlers.length .exceptionTable
    checkCount attributes.length .attributes
    Attribute.checkList attributes
  | .constantValue _ | .signature _ | .sourceFile _ | .nestHost _ => .ok ()
  | .exceptions indices => checkCount indices.length .exceptions
  | .nestMembers indices => checkCount indices.length .nestMembers
  | .permittedSubclasses indices => checkCount indices.length .permittedSubclasses
  | .innerClasses classes => checkCount classes.length .innerClasses
  | .enclosingMethod .. => .ok ()
  | .bootstrapMethods methods => do
    checkCount methods.length .bootstrapMethods
    methods.forM fun method => checkCount method.arguments.length .bootstrapArguments
  | .record components => do
    checkCount components.length .recordComponents
    RecordComponent.checkList components
  | .annotationDefault value => value.check
  | .annotations annotations => do
    checkCount annotations.length .annotations
    annotations.forM AnnotationOf.check
  | .parameterAnnotations parameters => do
    unless parameters.length < UInt8.size do throw (.overflow .parameters)
    parameters.forM fun annotations => do
      checkCount annotations.length .annotations
      annotations.forM AnnotationOf.check
  | .typeAnnotations annotations => do
    checkCount annotations.length .typeAnnotations
    annotations.forM fun a => a.content.check
  | .marker | .raw _ => .ok ()

/-- Whether the counts of an attribute fit, and then its length. -/
def Attribute.check : Attribute → Except ClassError Unit
  | ⟨_, body⟩ => do
    AttributeBody.check body
    unless (AttributeBody.bytes body).length < UInt32.size do throw (.overflow .attributeLength)

/-- Whether the counts of a list of attributes fit. -/
def Attribute.checkList : List Attribute → Except ClassError Unit
  | [] => .ok ()
  | a :: attributes => do
    Attribute.check a
    Attribute.checkList attributes

/-- Whether the counts of a record component fit. -/
def RecordComponent.check : RecordComponent → Except ClassError Unit
  | ⟨_, _, attributes⟩ => do
    checkCount attributes.length .attributes
    Attribute.checkList attributes

/-- Whether the counts of a list of record components fit. -/
def RecordComponent.checkList : List RecordComponent → Except ClassError Unit
  | [] => .ok ()
  | component :: components => do
    RecordComponent.check component
    RecordComponent.checkList components

end

end ProcessorBench
