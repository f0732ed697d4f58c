import ProcessorBench.ClassFile.AnnotationInfo
import ProcessorBench.ClassFile.Pool
import ProcessorBench.Decimal.Binary64

/-!
# Annotation values

What an annotation says, without reference to a pool. `AnnotationInfo.resolve` looks the values up, and
`AnnotationContent.lower` puts them into a pool under construction.
-/

namespace ProcessorBench

mutual

/-- The value of an annotation element. -/
inductive AnnotationValue where
  | int (value : Int64)
  /-- A floating-point number, by the bits of a double. -/
  | float (bits : UInt64)
  | bool (value : Bool)
  | char (value : Char)
  | string (text : String)
  | enumConst (descriptor constant : String)
  /-- A class literal, by its descriptor. -/
  | classInfo (descriptor : String)
  | nested (value : AnnotationContent)
  | array (values : List AnnotationValue)

/-- An annotation with its values. -/
structure AnnotationContent where
  /-- The descriptor of the annotation type. -/
  descriptor : String
  elements : List ResolvedElement

/-- An element of an annotation with its value. -/
structure ResolvedElement where
  name : String
  value : AnnotationValue

end

namespace AnnotationContent

/-- The value of the first element of the given name. -/
def element? (a : AnnotationContent) (name : String) : Option AnnotationValue :=
  (a.elements.find? (·.name = name)).map (·.value)

end AnnotationContent

instance : Inhabited AnnotationValue := ⟨.bool false⟩

/-- The character of a number, U+FFFD for a number that is no character's. -/
def charOfInt (n : Int) : Char :=
  if 0 ≤ n then
    if h : n.toNat.isValidChar then Char.ofNatAux n.toNat h else '\uFFFD'
  else '\uFFFD'

/-- The value of a constant element. An integer constant stands for four kinds of values, and each
other kind of constant for one. -/
def ElementTag.resolve (tag : ElementTag) (index : PoolIndex) (c : Constant) :
    Except ClassError AnnotationValue :=
  match tag, c with
  | .boolean, .integer v => .ok (.bool (v != 0))
  | .char, .integer v => .ok (.char (charOfInt v.toInt))
  | .byte, .integer v | .short, .integer v | .int, .integer v => .ok (.int v.toInt64)
  | .long, .long v => .ok (.int v)
  | .float, .float bits => .ok (.float (Binary64.ofBinary32 bits))
  | .double, .double bits => .ok (.float bits)
  | _, _ => .error (.unexpectedConstant index .annotationValue)

mutual

/-- Look up an element value. -/
def ElementValue.resolve (pool : ConstantPool) :
    ElementValue → Except ClassError AnnotationValue
  | .const .string index => return .string (← pool.utf8 index)
  | .const tag index => do tag.resolve index (← pool.get index)
  | .enumConst typeName constName =>
    return .enumConst (← pool.utf8 typeName) (← pool.utf8 constName)
  | .classInfo descriptor => return .classInfo (← pool.utf8 descriptor)
  | .nested value => return .nested (← AnnotationInfo.resolve pool value)
  | .array values => return .array (← ElementValue.resolveList pool values)

/-- Look up a list of element values. -/
def ElementValue.resolveList (pool : ConstantPool) :
    List ElementValue → Except ClassError (List AnnotationValue)
  | [] => return []
  | value :: values =>
    return (← ElementValue.resolve pool value) :: (← ElementValue.resolveList pool values)

/-- Look up an annotation. -/
def AnnotationInfo.resolve (pool : ConstantPool) :
    AnnotationInfo → Except ClassError AnnotationContent
  | ⟨type, elements⟩ => return ⟨← pool.utf8 type, ← Element.resolveList pool elements⟩

/-- Look up a list of elements. -/
def Element.resolveList (pool : ConstantPool) :
    List Element → Except ClassError (List ResolvedElement)
  | [] => return []
  | element :: elements =>
    return (← Element.resolve pool element) :: (← Element.resolveList pool elements)

/-- Look up an element. -/
def Element.resolve (pool : ConstantPool) : Element → Except ClassError ResolvedElement
  | ⟨name, value⟩ => return ⟨← pool.utf8 name, ← ElementValue.resolve pool value⟩

end

end ProcessorBench
