import ProcessorBench.Bytes.Reader
import ProcessorBench.ClassFile.Error

/-!
# Constants

A constant of a class file refers to other constants. What it refers to them by is a parameter: in a
file that is a pool index (`Constant`), in the resolved view it is the constant itself
(`ConstantTree`). `ConstantOf.mapRefs` replaces the references in the order the format stores them,
and every walk over references in this library is an instance of it.

Floating-point constants are kept as bits, so that constants are compared exactly.
-/

namespace ProcessorBench

/-- The number of a slot in a constant pool. -/
abbrev PoolIndex := UInt16

/-- A constant whose references to other constants have type `ι`. -/
inductive ConstantOf (ι : Type) where
  /-- Text in modified UTF-8, not decoded. -/
  | utf8 (bytes : Bytes)
  | integer (value : Int32)
  | float (bits : UInt32)
  | long (value : Int64)
  | double (bits : UInt64)
  | classInfo (name : ι)
  | string (text : ι)
  | fieldRef (owner member : ι)
  | methodRef (owner member : ι)
  | interfaceMethodRef (owner member : ι)
  | nameAndType (name descriptor : ι)
  | methodHandle (kind : UInt8) (reference : ι)
  | methodType (descriptor : ι)
  /-- `bootstrap` numbers an entry of the class's bootstrap methods, not a constant. -/
  | dynamic (bootstrap : UInt16) (member : ι)
  | invokeDynamic (bootstrap : UInt16) (member : ι)
  | moduleInfo (name : ι)
  | packageInfo (name : ι)
deriving DecidableEq, Hashable

/-- A constant as a pool stores it. -/
abbrev Constant := ConstantOf PoolIndex

namespace ConstantOf

variable {ι κ : Type}

/-- The byte that announces the kind of a constant. -/
def tag : ConstantOf ι → UInt8
  | .utf8 _ => 1
  | .integer _ => 3
  | .float _ => 4
  | .long _ => 5
  | .double _ => 6
  | .classInfo _ => 7
  | .string _ => 8
  | .fieldRef .. => 9
  | .methodRef .. => 10
  | .interfaceMethodRef .. => 11
  | .nameAndType .. => 12
  | .methodHandle .. => 15
  | .methodType _ => 16
  | .dynamic .. => 17
  | .invokeDynamic .. => 18
  | .moduleInfo _ => 19
  | .packageInfo _ => 20

/-- Whether the constant takes two slots. -/
def isWide : ConstantOf ι → Bool
  | .long _ | .double _ => true
  | _ => false

/-- How many slots the constant takes. -/
def slots (c : ConstantOf ι) : Nat := if c.isWide then 2 else 1

theorem slots_pos (c : ConstantOf ι) : 0 < c.slots := by
  unfold slots
  split <;> decide

theorem slots_le_two (c : ConstantOf ι) : c.slots ≤ 2 := by
  unfold slots
  split <;> decide

/-- The references of a constant, in the order the format stores them. -/
def refs : ConstantOf ι → List ι
  | .utf8 _ | .integer _ | .float _ | .long _ | .double _ => []
  | .classInfo i | .string i | .methodType i | .moduleInfo i | .packageInfo i => [i]
  | .fieldRef i j | .methodRef i j | .interfaceMethodRef i j | .nameAndType i j => [i, j]
  | .methodHandle _ i | .dynamic _ i | .invokeDynamic _ i => [i]

/-- Replace each reference, in the order the format stores them. -/
def mapRefs {m : Type → Type} [Monad m] (f : ι → m κ) : ConstantOf ι → m (ConstantOf κ)
  | .utf8 bytes => pure (.utf8 bytes)
  | .integer value => pure (.integer value)
  | .float bits => pure (.float bits)
  | .long value => pure (.long value)
  | .double bits => pure (.double bits)
  | .classInfo name => return .classInfo (← f name)
  | .string text => return .string (← f text)
  | .fieldRef owner member => return .fieldRef (← f owner) (← f member)
  | .methodRef owner member => return .methodRef (← f owner) (← f member)
  | .interfaceMethodRef owner member =>
    return .interfaceMethodRef (← f owner) (← f member)
  | .nameAndType name descriptor => return .nameAndType (← f name) (← f descriptor)
  | .methodHandle kind reference => return .methodHandle kind (← f reference)
  | .methodType descriptor => return .methodType (← f descriptor)
  | .dynamic bootstrap member => return .dynamic bootstrap (← f member)
  | .invokeDynamic bootstrap member => return .invokeDynamic bootstrap (← f member)
  | .moduleInfo name => return .moduleInfo (← f name)
  | .packageInfo name => return .packageInfo (← f name)

end ConstantOf

namespace Constant

open Reader in
/-- Read the constant of slot `index`. A double is read as two words, so a file that ends inside it
is short at the word it breaks. -/
def read (index : PoolIndex) : Reader ClassError Constant := do
  match ← u8 with
  | 1 => return .utf8 (← take (← u16).toNat)
  | 3 => return .integer (← u32).toInt32
  | 4 => return .float (← u32)
  | 5 => return .long (UInt64.ofNat (← number 8)).toInt64
  | 6 =>
    let high ← number 4
    let low ← number 4
    return .double (UInt64.ofNat ((high <<< 32) + low))
  | 7 => return .classInfo (← u16)
  | 8 => return .string (← u16)
  | 9 => return .fieldRef (← u16) (← u16)
  | 10 => return .methodRef (← u16) (← u16)
  | 11 => return .interfaceMethodRef (← u16) (← u16)
  | 12 => return .nameAndType (← u16) (← u16)
  | 15 => return .methodHandle (← u8) (← u16)
  | 16 => return .methodType (← u16)
  | 17 => return .dynamic (← u16) (← u16)
  | 18 => return .invokeDynamic (← u16) (← u16)
  | 19 => return .moduleInfo (← u16)
  | 20 => return .packageInfo (← u16)
  | tag => refuse (.badConstantTag tag index)

/-- What follows the tag of a constant. -/
def payload : Constant → Bytes
  | .utf8 bytes => Bytes.ofNat 2 bytes.length ++ bytes
  | .integer value => Bytes.ofUInt32 value.toUInt32
  | .float bits => Bytes.ofUInt32 bits
  | .long value => Bytes.ofUInt64 value.toUInt64
  | .double bits => Bytes.ofUInt64 bits
  | .classInfo i | .string i | .methodType i | .moduleInfo i | .packageInfo i => Bytes.ofUInt16 i
  | .fieldRef i j | .methodRef i j | .interfaceMethodRef i j | .nameAndType i j
  | .dynamic i j | .invokeDynamic i j => Bytes.ofUInt16 i ++ Bytes.ofUInt16 j
  | .methodHandle kind reference => kind :: Bytes.ofUInt16 reference

/-- The bytes of a constant. -/
def bytes (c : Constant) : Bytes := c.tag :: payload c

/-- A constant can be written when its length fits the field that holds it. -/
def check : Constant → Except ClassError Unit
  | .utf8 bytes => if bytes.length < UInt16.size then .ok () else .error (.overflow .utf8Length)
  | _ => .ok ()

end Constant

end ProcessorBench
