import ProcessorBench.ClassFile.Attribute

/-!
# Class files

A class file is a constant pool and a class that refers to it. `ClassFile.parse` reads one from a
byte string and takes all of it or fails; `ClassFile.toBytes` writes one, or says which of its lengths
does not fit the format.
-/

namespace ProcessorBench

/-- Access and property flags of a class or a member. -/
structure AccessFlags where
  bits : UInt16
deriving DecidableEq, Repr

namespace AccessFlags

/-- The flag of public classes and members. -/
def isPublic : AccessFlags := ⟨0x0001⟩

/-- The flag that classes carry since their second format. -/
def hasSuper : AccessFlags := ⟨0x0020⟩

/-- The flag of interfaces. -/
def interfaceFlag : AccessFlags := ⟨0x0200⟩

/-- The flag of abstract classes and methods. -/
def abstractFlag : AccessFlags := ⟨0x0400⟩

/-- The flag of annotation types. -/
def annotationFlag : AccessFlags := ⟨0x2000⟩

/-- The flags of either. -/
def union (a b : AccessFlags) : AccessFlags := ⟨a.bits ||| b.bits⟩

instance : OrOp AccessFlags := ⟨union⟩

/-- Whether every flag of `b` is set in `a`. -/
def contains (a b : AccessFlags) : Bool := a.bits &&& b.bits = b.bits

/-- Whether the flags are those of an interface. -/
def isInterface (a : AccessFlags) : Bool := a.contains interfaceFlag

/-- Whether the flags are those of an annotation type. -/
def isAnnotationType (a : AccessFlags) : Bool := a.contains (annotationFlag ||| interfaceFlag)

end AccessFlags

/-- A field or a method. -/
structure MemberOf (ι β : Type) where
  access : AccessFlags
  name : ι
  descriptor : ι
  attributes : List (AttributeOf ι β)

/-- A class without its pool: references have type `ι`, and code has type `β`. -/
structure ClassOf (ι β : Type) where
  minorVersion : UInt16
  majorVersion : UInt16
  access : AccessFlags
  thisClass : ι
  /-- Index 0 when there is none. -/
  superClass : ι
  interfaces : List ι
  fields : List (MemberOf ι β)
  methods : List (MemberOf ι β)
  attributes : List (AttributeOf ι β)

/-- A field or a method as a class file stores it. -/
abbrev Member := MemberOf PoolIndex Bytes

/-- A class as a class file stores it, with the pool its indices refer to. -/
structure ClassFile extends ClassOf PoolIndex Bytes where
  pool : ConstantPool

/-! ## Reading -/

section
open Reader

/-- Read a field or a method whose attributes nest below a bound. -/
def Member.read (pool : ConstantPool) (depth : Nat) : Reader ClassError Member := do
  let access ← u16
  let name ← u16
  let descriptor ← u16
  let attributes ← counted (Attribute.read pool depth)
  return { access := ⟨access⟩, name, descriptor, attributes }

/-- The first four bytes of every class file. -/
def ClassFile.magic : UInt32 := 0xCAFEBABE

/-- Read a class file whose attributes nest below a bound. -/
def ClassFile.read (depth : Nat) : Reader ClassError ClassFile := do
  let found ← u32
  unless found = magic do refuse (.badMagic found)
  let minorVersion ← u16
  let majorVersion ← u16
  let pool ← ConstantPool.read
  let access ← u16
  let thisClass ← u16
  let superClass ← u16
  let interfaces ← counted u16
  let fields ← counted (Member.read pool depth)
  let methods ← counted (Member.read pool depth)
  let attributes ← counted (Attribute.read pool depth)
  return { minorVersion, majorVersion, pool, access := ⟨access⟩, thisClass, superClass, interfaces,
           fields, methods, attributes }

end

/-- The class file that a byte string holds. A shortfall becomes the offset at which it was met. -/
def ClassFile.parse (bytes : Bytes) : Except ClassError ClassFile :=
  match ClassFile.read (bytes.length + 1) bytes with
  | .ok (c, []) => .ok c
  | .ok (_, rest) => .error (.trailingBytes "ClassFile" rest.length)
  | .error (.shortfall left lacking) => .error (.truncated (bytes.length - left) lacking)
  | .error (.refused cause) => .error cause

/-! ## Writing -/

/-- The bytes of a list of attributes behind its count. -/
def Attribute.countedBytes (attributes : List Attribute) : Bytes :=
  Bytes.ofNat 2 attributes.length ++ Attribute.bytesList attributes

/-- Whether a list of attributes can be counted and each of them written. -/
def Attribute.checkCounted (attributes : List Attribute) : Except ClassError Unit := do
  checkCount attributes.length .attributes
  Attribute.checkList attributes

/-- The bytes of a field or a method. -/
def Member.bytes (m : Member) : Bytes :=
  Bytes.ofUInt16 m.access.bits ++ (Bytes.ofUInt16 m.name ++ (Bytes.ofUInt16 m.descriptor ++
    Attribute.countedBytes m.attributes))

namespace ClassFile

/-- Whether every length fits its field; the error is the first that does not, in the order in which
they are written. -/
def check (c : ClassFile) : Except ClassError Unit := do
  c.pool.check
  checkCount c.interfaces.length .interfaces
  checkCount c.fields.length .fields
  c.fields.forM fun m => Attribute.checkCounted m.attributes
  checkCount c.methods.length .methods
  c.methods.forM fun m => Attribute.checkCounted m.attributes
  Attribute.checkCounted c.attributes

/-- The written form of a class whose lengths all fit. -/
def bytes (c : ClassFile) : Bytes :=
  Bytes.ofUInt32 magic ++ (Bytes.ofUInt16 c.minorVersion ++ (Bytes.ofUInt16 c.majorVersion ++
    (c.pool.bytes ++ (Bytes.ofUInt16 c.access.bits ++ (Bytes.ofUInt16 c.thisClass ++
      (Bytes.ofUInt16 c.superClass ++ (indexListBytes c.interfaces ++
        (Bytes.ofNat 2 c.fields.length ++ (c.fields.flatMap Member.bytes ++
          (Bytes.ofNat 2 c.methods.length ++ (c.methods.flatMap Member.bytes ++
            Attribute.countedBytes c.attributes)))))))))))

/-- The bytes of a class file. -/
def toBytes (c : ClassFile) : Except ClassError Bytes := do
  c.check
  return c.bytes

end ClassFile

end ProcessorBench
