/-!
# What can be wrong with a class file

Each way of failing is a constructor; `ClassError.message` is the only place that words one.
-/

namespace ProcessorBench

/-- A length or an index that does not fit the field the format gives it. -/
inductive Limit where
  | utf8Length
  | poolSlots
  | interfaces
  | fields
  | methods
  | attributes
  | attributeLength
  | codeLength
  | exceptionTable
  | exceptions
  | nestMembers
  | permittedSubclasses
  | innerClasses
  | bootstrapMethods
  | bootstrapArguments
  | recordComponents
  | annotations
  | parameters
  | typeAnnotations
  | annotationElements
  | annotationArray
  | lineNumbers
  /-- The operand of a one-byte load, met while a body is assembled. -/
  | loadOperand
  /-- The operand of a one-byte load, met while a body is renumbered. -/
  | renumberedLoadOperand
deriving DecidableEq, Repr

/-- What is too large. -/
def Limit.message : Limit → String
  | .utf8Length => "utf8 constant longer than 65535 bytes"
  | .poolSlots => "more than 65535 constant pool slots"
  | .interfaces => "interface count"
  | .fields => "field count"
  | .methods => "method count"
  | .attributes => "attribute count"
  | .attributeLength => "attribute longer than 4 GiB"
  | .codeLength => "code longer than 4 GiB"
  | .exceptionTable => "exception table length"
  | .exceptions => "exception count"
  | .nestMembers => "nest member count"
  | .permittedSubclasses => "permitted subclass count"
  | .innerClasses => "inner class count"
  | .bootstrapMethods => "bootstrap method count"
  | .bootstrapArguments => "bootstrap argument count"
  | .recordComponents => "record component count"
  | .annotations => "annotation count"
  | .parameters => "more than 255 parameters"
  | .typeAnnotations => "type annotation count"
  | .annotationElements => "annotation element count"
  | .annotationArray => "annotation array length"
  | .lineNumbers => "line number table length"
  | .loadOperand => "ldc operand"
  | .renumberedLoadOperand => "ldc operand above 255"

/-- The kind of constant that a place asks for. -/
inductive ConstantRole where
  | utf8
  | classInfo
  | nameAndType
  | annotationValue
deriving DecidableEq, Repr

/-- The kind's name. -/
def ConstantRole.message : ConstantRole → String
  | .utf8 => "Utf8"
  | .classInfo => "Class"
  | .nameAndType => "NameAndType"
  | .annotationValue => "annotation constant"

/-- Why a byte string is no class file, or a class file cannot be written or normalized. -/
inductive ClassError where
  /-- The input ends at most at `offset`, with `needed` bytes missing. -/
  | truncated (offset needed : Nat)
  | badMagic (found : UInt32)
  | badConstantTag (tag : UInt8) (index : UInt16)
  /-- The index is zero, past the pool, or the second slot of a wide constant. -/
  | badConstantIndex (index : UInt16)
  | unexpectedConstant (index : UInt16) (expected : ConstantRole)
  | badOpcode (opcode : UInt8) (offset : Nat)
  | badUtf8 (offset : Nat)
  | overflow (limit : Limit)
  /-- An attribute's contents reach past its declared length. -/
  | bodyTooShort (owner : String)
  /-- A structure is complete and bytes are left. -/
  | trailingBytes (structureName : String) (count : Nat)
  | unknownElementTag (tag : UInt8)
  | unknownTargetType (targetType : UInt8)
  /-- A constant is part of itself. -/
  | cyclicConstant (index : UInt16)
deriving DecidableEq, Repr

/-- The hexadecimal digits of `n` in the given case, at least `width` of them. -/
def hexNumber (width n : Nat) (upper : Bool) : String :=
  let digits := (Nat.toDigits 16 n).map fun c => if upper then c.toUpper else c
  String.ofList (List.replicate (width - digits.length) '0' ++ digits)

/-- The wording of an error. -/
def ClassError.message : ClassError → String
  | .truncated offset needed =>
    s!"class file truncated at offset {offset}: needed {needed} more byte(s)"
  | .badMagic found => "bad class file magic 0x" ++ hexNumber 8 found.toNat true
  | .badConstantTag tag index => s!"unknown constant pool tag {tag} at index {index}"
  | .badConstantIndex index => s!"invalid constant pool index {index}"
  | .unexpectedConstant index expected =>
    s!"constant pool index {index} is not a {expected.message} constant"
  | .badOpcode opcode offset =>
    "invalid opcode 0x" ++ hexNumber 2 opcode.toNat true ++ s!" at bytecode offset {offset}"
  | .badUtf8 offset => s!"invalid modified UTF-8 at byte {offset}"
  | .overflow limit => s!"constant pool overflow: {limit.message}"
  | .bodyTooShort owner =>
    s!"malformed `{owner}` attribute: body shorter than its contents"
  | .trailingBytes structureName count =>
    s!"malformed `{structureName}` attribute: {count} trailing byte(s)"
  | .unknownElementTag tag =>
    "malformed `annotation` attribute: unknown element_value tag 0x" ++
      hexNumber 2 tag.toNat false
  | .unknownTargetType targetType =>
    "malformed `type annotation` attribute: unknown target_type 0x" ++
      hexNumber 2 targetType.toNat false
  | .cyclicConstant index => s!"constant pool index {index} refers to itself"

end ProcessorBench
