import ProcessorBench.ClassFile.Constant

/-!
# Annotations

An annotation names its type and gives values to elements; a value may hold further values and
further annotations. References have the type `ι`, as in `ConstantOf`.

A value is read with a bound on its nesting. Each level takes a byte at least, so a bound above the
number of bytes is never reached, and every caller gives such a bound.
-/

namespace ProcessorBench

/-- The kind of a value that is a constant. -/
inductive ElementTag where
  | byte
  | char
  | double
  | float
  | int
  | long
  | short
  | boolean
  | string
deriving DecidableEq, Repr

/-- The byte that announces a constant value. -/
def ElementTag.toByte : ElementTag → UInt8
  | .byte => 66
  | .char => 67
  | .double => 68
  | .float => 70
  | .int => 73
  | .long => 74
  | .short => 83
  | .boolean => 90
  | .string => 115

/-- The kind of constant value that a byte announces. -/
def ElementTag.ofByte? : UInt8 → Option ElementTag
  | 66 => some .byte
  | 67 => some .char
  | 68 => some .double
  | 70 => some .float
  | 73 => some .int
  | 74 => some .long
  | 83 => some .short
  | 90 => some .boolean
  | 115 => some .string
  | _ => none

theorem ElementTag.ofByte?_toByte (tag : ElementTag) : ofByte? tag.toByte = some tag := by
  cases tag <;> rfl

mutual

/-- The value of an element. -/
inductive ElementValueOf (ι : Type) where
  /-- A constant of the matching kind; for `string`, a text. -/
  | const (tag : ElementTag) (value : ι)
  /-- An enumeration constant: the descriptor of its type, and its name. -/
  | enumConst (typeName constName : ι)
  /-- A class literal, by its descriptor. -/
  | classInfo (descriptor : ι)
  | nested (value : AnnotationOf ι)
  | array (values : List (ElementValueOf ι))

/-- An annotation: the descriptor of its type and its elements in order. -/
structure AnnotationOf (ι : Type) where
  type : ι
  elements : List (ElementOf ι)

/-- An element of an annotation: its name and its value. -/
structure ElementOf (ι : Type) where
  name : ι
  value : ElementValueOf ι

end

/-- An annotation of a type. Where it stands is kept as bytes: it holds offsets and numbers of local
variables, never references to constants. -/
structure TypeAnnotationOf (ι : Type) where
  targetType : UInt8
  targetInfo : Bytes
  /-- A count byte and two bytes for each step. -/
  typePath : Bytes
  content : AnnotationOf ι

/-- An element value as a class file stores it. -/
abbrev ElementValue := ElementValueOf PoolIndex

/-- An annotation as a class file stores it. -/
abbrev AnnotationInfo := AnnotationOf PoolIndex

/-- An element as a class file stores it. -/
abbrev Element := ElementOf PoolIndex

/-- A type annotation as a class file stores it. -/
abbrev TypeAnnotationInfo := TypeAnnotationOf PoolIndex

/-! ## Replacing references -/

section
variable {m : Type → Type} [Monad m] {ι κ : Type}

mutual

/-- Replace each reference, in the order the format stores them. -/
def ElementValueOf.mapRefs (f : ι → m κ) : ElementValueOf ι → m (ElementValueOf κ)
  | .const tag value => return .const tag (← f value)
  | .enumConst typeName constName => return .enumConst (← f typeName) (← f constName)
  | .classInfo descriptor => return .classInfo (← f descriptor)
  | .nested value => return .nested (← value.mapRefs f)
  | .array values => return .array (← ElementValueOf.mapRefsList f values)

/-- Replace each reference of a list of values. -/
def ElementValueOf.mapRefsList (f : ι → m κ) : List (ElementValueOf ι) → m (List (ElementValueOf κ))
  | [] => pure []
  | value :: values => return (← value.mapRefs f) :: (← ElementValueOf.mapRefsList f values)

/-- Replace each reference: the type, then for each element its name and its value. -/
def AnnotationOf.mapRefs (f : ι → m κ) : AnnotationOf ι → m (AnnotationOf κ)
  | ⟨type, elements⟩ => return ⟨← f type, ← ElementOf.mapRefsList f elements⟩

/-- Replace each reference of a list of elements. -/
def ElementOf.mapRefsList (f : ι → m κ) : List (ElementOf ι) → m (List (ElementOf κ))
  | [] => pure []
  | element :: elements => return (← element.mapRefs f) :: (← ElementOf.mapRefsList f elements)

/-- Replace the references of an element: its name, then its value. -/
def ElementOf.mapRefs (f : ι → m κ) : ElementOf ι → m (ElementOf κ)
  | ⟨name, value⟩ => return ⟨← f name, ← value.mapRefs f⟩

end

/-- Replace the references of the annotation. -/
def TypeAnnotationOf.mapRefs (f : ι → m κ) (a : TypeAnnotationOf ι) : m (TypeAnnotationOf κ) :=
  return { a with content := ← a.content.mapRefs f }

end

/-! ## Reading -/

section
open Reader

/-- Read an annotation whose values `value` reads. -/
def AnnotationInfo.readWith (value : Reader ClassError ElementValue) : Reader ClassError AnnotationInfo := do
  let type ← u16
  let elements ← counted do
    let name ← u16
    return ⟨name, ← value⟩
  return ⟨type, elements⟩

/-- Read an element value whose nesting is below a bound. -/
def ElementValue.read : (depth : Nat) → Reader ClassError ElementValue
  | 0 => exhausted
  | depth + 1 => do
    let tag ← u8
    match ElementTag.ofByte? tag with
    | some tag => return .const tag (← u16)
    | none =>
      match tag with
      | 101 => return .enumConst (← u16) (← u16)
      | 99 => return .classInfo (← u16)
      | 64 => return .nested (← AnnotationInfo.readWith (ElementValue.read depth))
      | 91 => return .array (← counted (ElementValue.read depth))
      | tag => refuse (.unknownElementTag tag)

/-- Read an annotation whose values nest below a bound. -/
def AnnotationInfo.read (depth : Nat) : Reader ClassError AnnotationInfo :=
  AnnotationInfo.readWith (ElementValue.read depth)

/-- How a kind of target is described: by a fixed number of bytes, or by a table of six-byte entries
behind a 16-bit count. -/
inductive TargetLayout where
  | fixed (length : Nat)
  | table
deriving DecidableEq, Repr

/-- The layout that a target type announces. -/
def TargetLayout.ofTargetType? (targetType : UInt8) : Option TargetLayout :=
  if 0x13 ≤ targetType && targetType ≤ 0x15 then some (.fixed 0)
  else if targetType ≤ 0x01 || targetType = 0x16 then some (.fixed 1)
  else if (0x10 ≤ targetType && targetType ≤ 0x12) || targetType = 0x17
      || (0x42 ≤ targetType && targetType ≤ 0x46) then some (.fixed 2)
  else if 0x47 ≤ targetType && targetType ≤ 0x4B then some (.fixed 3)
  else if targetType = 0x40 || targetType = 0x41 then some .table
  else none

/-- Read the description of a target. -/
def TargetLayout.read : TargetLayout → Reader ClassError Bytes
  | .fixed length => take length
  | .table => do
    let entries ← peek u16
    take (2 + entries.toNat * 6)

/-- Read a type path: a count byte and two bytes for each step. -/
def TypeAnnotationInfo.readPath : Reader ClassError Bytes := do
  let steps ← u8
  return steps :: (← take (steps.toNat * 2))

/-- Read a type annotation whose values nest below a bound. -/
def TypeAnnotationInfo.read (depth : Nat) : Reader ClassError TypeAnnotationInfo := do
  let targetType ← u8
  match TargetLayout.ofTargetType? targetType with
  | none => refuse (.unknownTargetType targetType)
  | some layout =>
    let targetInfo ← layout.read
    let typePath ← readPath
    let content ← AnnotationInfo.read depth
    return { targetType, targetInfo, typePath, content }

end

/-! ## Writing

Writing is split in two: `check` finds the first count that does not fit its field, in the order in
which the fields are written, and `bytes` is the written form of whatever passes. -/

/-- A count that has to fit 16 bits. -/
def checkCount (count : Nat) (limit : Limit) : Except ClassError Unit :=
  if count < UInt16.size then .ok () else .error (.overflow limit)

mutual

/-- Whether the counts of a value fit. -/
def ElementValueOf.check {ι : Type} : ElementValueOf ι → Except ClassError Unit
  | .const .. | .enumConst .. | .classInfo _ => .ok ()
  | .nested value => value.check
  | .array values => do
    checkCount values.length .annotationArray
    ElementValueOf.checkList values

/-- Whether the counts of a list of values fit. -/
def ElementValueOf.checkList {ι : Type} : List (ElementValueOf ι) → Except ClassError Unit
  | [] => .ok ()
  | value :: values => do
    value.check
    ElementValueOf.checkList values

/-- Whether the counts of an annotation fit. -/
def AnnotationOf.check {ι : Type} : AnnotationOf ι → Except ClassError Unit
  | ⟨_, elements⟩ => do
    checkCount elements.length .annotationElements
    ElementOf.checkList elements

/-- Whether the counts of a list of elements fit. -/
def ElementOf.checkList {ι : Type} : List (ElementOf ι) → Except ClassError Unit
  | [] => .ok ()
  | element :: elements => do
    element.check
    ElementOf.checkList elements

/-- Whether the counts of an element's value fit. -/
def ElementOf.check {ι : Type} : ElementOf ι → Except ClassError Unit
  | ⟨_, value⟩ => value.check

end

mutual

/-- The bytes of an element value. -/
def ElementValue.bytes : ElementValue → Bytes
  | .const tag value => tag.toByte :: Bytes.ofUInt16 value
  | .enumConst typeName constName => 101 :: (Bytes.ofUInt16 typeName ++ Bytes.ofUInt16 constName)
  | .classInfo descriptor => 99 :: Bytes.ofUInt16 descriptor
  | .nested value => 64 :: AnnotationInfo.bytes value
  | .array values => 91 :: (Bytes.ofNat 2 values.length ++ ElementValue.bytesList values)

/-- The bytes of a list of values, without its count. -/
def ElementValue.bytesList : List ElementValue → Bytes
  | [] => []
  | value :: values => ElementValue.bytes value ++ ElementValue.bytesList values

/-- The bytes of an annotation. -/
def AnnotationInfo.bytes : AnnotationInfo → Bytes
  | ⟨type, elements⟩ =>
    Bytes.ofUInt16 type ++ (Bytes.ofNat 2 elements.length ++ Element.bytesList elements)

/-- The bytes of a list of elements, without its count. -/
def Element.bytesList : List Element → Bytes
  | [] => []
  | element :: elements => Element.bytes element ++ Element.bytesList elements

/-- The bytes of an element: its name and its value. -/
def Element.bytes : Element → Bytes
  | ⟨name, value⟩ => Bytes.ofUInt16 name ++ ElementValue.bytes value

end

/-- The bytes of a type annotation. -/
def TypeAnnotationInfo.bytes (a : TypeAnnotationInfo) : Bytes :=
  a.targetType :: (a.targetInfo ++ (a.typePath ++ AnnotationInfo.bytes a.content))

end ProcessorBench
