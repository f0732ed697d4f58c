import ProcessorBench.ClassFile.Basic
import ProcessorBench.Text.Utf8

/-!
# Debug attributes

Attributes that hold source positions, names of local variables or verifier frames differ between
compilations of one program that is laid out differently. `ClassFile.withoutDebug` leaves them out at
every depth.
-/

namespace ProcessorBench

/-- The names of the debug attributes. -/
def debugAttributeNames : List String :=
  ["SourceFile", "SourceDebugExtension", "LineNumberTable", "LocalVariableTable",
   "LocalVariableTypeTable", "MethodParameters", "StackMapTable"]

/-- The text of an attribute's name, read as UTF-8 with U+FFFD for what is none. -/
def Attribute.nameText (pool : ConstantPool) (a : Attribute) : Except ClassError String :=
  return Utf8.decodeLossy (← pool.utf8Bytes a.name)

/-- Whether an attribute is a debug attribute. -/
def Attribute.isDebug (pool : ConstantPool) (a : Attribute) : Except ClassError Bool :=
  return debugAttributeNames.contains (← a.nameText pool)

mutual

/-- An attribute without the debug attributes inside it, or nothing if it is one itself. -/
def Attribute.withoutDebug (pool : ConstantPool) :
    Attribute → Except ClassError (Option Attribute)
  | ⟨name, body⟩ => do
    if ← Attribute.isDebug pool ⟨name, body⟩ then return none
    else return some ⟨name, ← AttributeBody.withoutDebug pool body⟩

/-- A body without debug attributes. Only code and records hold attributes. -/
def AttributeBody.withoutDebug (pool : ConstantPool) :
    AttributeBody → Except ClassError AttributeBody
  | .code ⟨maxStack, maxLocals, code, handlers, attributes⟩ =>
    return .code ⟨maxStack, maxLocals, code, handlers,
      ← Attribute.withoutDebugList pool attributes⟩
  | .record components => return .record (← RecordComponent.withoutDebugList pool components)
  | body => return body

/-- A list of attributes without debug attributes. -/
def Attribute.withoutDebugList (pool : ConstantPool) :
    List Attribute → Except ClassError (List Attribute)
  | [] => return []
  | a :: attributes => do
    let kept ← Attribute.withoutDebug pool a
    let rest ← Attribute.withoutDebugList pool attributes
    return kept.toList ++ rest

/-- A list of record components without debug attributes. -/
def RecordComponent.withoutDebugList (pool : ConstantPool) :
    List RecordComponent → Except ClassError (List RecordComponent)
  | [] => return []
  | ⟨name, descriptor, attributes⟩ :: components => do
    let attributes ← Attribute.withoutDebugList pool attributes
    return ⟨name, descriptor, attributes⟩ ::
      (← RecordComponent.withoutDebugList pool components)

end

/-- A field or a method without debug attributes. -/
def Member.withoutDebug (pool : ConstantPool) (m : Member) : Except ClassError Member :=
  return { m with attributes := ← Attribute.withoutDebugList pool m.attributes }

/-- A class without debug attributes, its pool unchanged. -/
def ClassFile.withoutDebug (c : ClassFile) : Except ClassError ClassFile := do
  let attributes ← Attribute.withoutDebugList c.pool c.attributes
  let fields ← c.fields.mapM (Member.withoutDebug c.pool)
  let methods ← c.methods.mapM (Member.withoutDebug c.pool)
  return { c with attributes, fields, methods }

end ProcessorBench
