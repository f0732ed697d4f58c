import Std.Data.HashMap
import ProcessorBench.ClassFile.Pool

/-!
# Building a constant pool

A builder hands out one index per distinct constant. A step either gives an index or fails because a
constant does not fit, and what earlier parts of a failed step have added stays: `PoolStep` is a
computation on a builder that keeps its state when it fails.
-/

namespace ProcessorBench

/-- A pool under construction, with the index of every constant in it. -/
structure PoolBuilder where
  pool : ConstantPool
  index : Std.HashMap Constant PoolIndex

/-- A computation on a builder. -/
abbrev PoolStep := EStateM ClassError PoolBuilder

namespace PoolBuilder

/-- A builder without constants. -/
def empty : PoolBuilder := ⟨.empty, ∅⟩

/-- How many slots there are so far, slot 0 included. -/
def slotCount (b : PoolBuilder) : Nat := b.pool.slotCount

/-- Whether no constant has been added. -/
def isEmpty (b : PoolBuilder) : Bool := b.slotCount ≤ 1

/-- The builder with a constant that is not in it yet. -/
def append : PoolBuilder → Constant → PoolBuilder
  | ⟨pool, index⟩, c =>
    let slot := UInt16.ofNat pool.slotCount
    ⟨pool.push c, index.insert c slot⟩

/-- The index of a constant, which is added if it is not there. -/
def intern (c : Constant) : PoolStep PoolIndex := do
  let b ← get
  match b.index[c]? with
  | some i => return i
  | none =>
    if b.slotCount + c.slots < UInt16.size then
      set (b.append c)
      return UInt16.ofNat b.slotCount
    else throw (.overflow .poolSlots)

/-- The index of a text. -/
def utf8 (text : String) : PoolStep PoolIndex := intern (.utf8 (ModifiedUtf8.encode text))

/-- The index of a class, by its internal name. -/
def classInfo (name : String) : PoolStep PoolIndex := do
  intern (.classInfo (← utf8 name))

/-- The index of a string constant. -/
def string (text : String) : PoolStep PoolIndex := do
  intern (.string (← utf8 text))

/-- The index of a name and a descriptor. -/
def nameAndType (name descriptor : String) : PoolStep PoolIndex := do
  let name ← utf8 name
  let descriptor ← utf8 descriptor
  intern (.nameAndType name descriptor)

/-- The index of a reference to a field of `owner`. -/
def fieldRef (owner name descriptor : String) : PoolStep PoolIndex := do
  let owner ← classInfo owner
  let nameAndType ← nameAndType name descriptor
  intern (.fieldRef owner nameAndType)

/-- The index of a reference to a method of `owner`. -/
def methodRef (owner name descriptor : String) : PoolStep PoolIndex := do
  let owner ← classInfo owner
  let nameAndType ← nameAndType name descriptor
  intern (.methodRef owner nameAndType)

end PoolBuilder

end ProcessorBench
