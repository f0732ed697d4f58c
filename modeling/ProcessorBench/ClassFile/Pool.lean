import ProcessorBench.ClassFile.Constant
import ProcessorBench.Text.ModifiedUtf8

/-!
# The constant pool

A pool is an array of slots. Slot 0 is empty, and so is the slot after a wide constant, so an index
from the file is an index of the array. Looking a constant up by an index that names no constant, or
one of another kind, is an error that says which.
-/

namespace ProcessorBench

/-- The constants of one class file, by slot. -/
structure ConstantPool where
  entries : Array (Option Constant)
deriving DecidableEq

namespace ConstantPool

/-- The pool without constants: slot 0 alone. -/
def empty : ConstantPool := ⟨#[none]⟩

/-- How many slots there are, slot 0 included: the count that a class file stores. -/
def slotCount (pool : ConstantPool) : Nat := pool.entries.size

/-- The pool with a constant after its last slot. -/
def push (pool : ConstantPool) (c : Constant) : ConstantPool :=
  if c.isWide then ⟨(pool.entries.push (some c)).push none⟩ else ⟨pool.entries.push (some c)⟩

theorem slotCount_push (pool : ConstantPool) (c : Constant) :
    (pool.push c).slotCount = pool.slotCount + c.slots := by
  unfold push slotCount ConstantOf.slots
  split <;> simp

/-- The constants with their indices, in order. -/
def toList (pool : ConstantPool) : List (PoolIndex × Constant) :=
  pool.entries.toList.zipIdx.filterMap fun (entry, i) => entry.map (UInt16.ofNat i, ·)

/-- The constants alone, in order. -/
def constants (pool : ConstantPool) : List Constant := pool.entries.toList.filterMap id

/-- The constant at an index. -/
def get (pool : ConstantPool) (index : PoolIndex) : Except ClassError Constant :=
  match pool.entries[index.toNat]? with
  | some (some c) => .ok c
  | _ => .error (.badConstantIndex index)

/-- The undecoded bytes of a text constant. -/
def utf8Bytes (pool : ConstantPool) (index : PoolIndex) : Except ClassError Bytes := do
  match ← pool.get index with
  | .utf8 bytes => return bytes
  | _ => throw (.unexpectedConstant index .utf8)

/-- A text constant, decoded. -/
def utf8 (pool : ConstantPool) (index : PoolIndex) : Except ClassError String := do
  ModifiedUtf8.decode (← pool.utf8Bytes index)

/-- The name that a class constant holds, in its internal form (`java/lang/Object`). -/
def className (pool : ConstantPool) (index : PoolIndex) : Except ClassError String := do
  match ← pool.get index with
  | .classInfo name => pool.utf8 name
  | _ => throw (.unexpectedConstant index .classInfo)

/-- The name and the descriptor that a name-and-type constant holds. -/
def nameAndType (pool : ConstantPool) (index : PoolIndex) :
    Except ClassError (String × String) := do
  match ← pool.get index with
  | .nameAndType name descriptor => return (← pool.utf8 name, ← pool.utf8 descriptor)
  | _ => throw (.unexpectedConstant index .nameAndType)

/-! ## Reading and writing -/

/-- Read constants until the pool has at least `count` slots. A wide constant in the last slot makes
it one slot longer than announced. -/
def readUpTo (count : Nat) (pool : ConstantPool) : Reader ClassError ConstantPool := do
  if pool.slotCount < count then
    let c ← Constant.read (UInt16.ofNat pool.slotCount)
    readUpTo count (pool.push c)
  else return pool
termination_by count - pool.slotCount
decreasing_by
  have : 0 < c.slots := by unfold ConstantOf.slots; split <;> decide
  rw [slotCount_push]
  omega

/-- Read a slot count and the constants. -/
def read : Reader ClassError ConstantPool := do
  readUpTo (← Reader.u16).toNat empty

/-- A pool can be written when its slots can be counted and its texts fit. -/
def check (pool : ConstantPool) : Except ClassError Unit := do
  unless pool.slotCount < UInt16.size do throw (.overflow .poolSlots)
  pool.constants.forM Constant.check

/-- The bytes of a pool. -/
def bytes (pool : ConstantPool) : Bytes :=
  Bytes.ofNat 2 pool.slotCount ++ pool.constants.flatMap Constant.bytes

end ConstantPool

end ProcessorBench
