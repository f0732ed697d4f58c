import ProcessorBench.ClassFile.Debug
import ProcessorBench.ClassFile.Instruction
import ProcessorBench.ClassFile.PoolBuilder
import ProcessorBench.ClassFile.References

/-!
# Normal form

Two class files compiled from sources that differ only in layout differ in their debug attributes and,
through them, in their constant pools. Normalizing drops the debug attributes and rebuilds the pool
from what is still referenced, each constant in the place where it is first used, so that what is
left depends only on the class.

Constants loaded with one byte come first: their new indices have to fit that byte.
-/

namespace ProcessorBench

/-- Progress in rebuilding a pool: the new pool, and the new index of every old index met so far. -/
structure Renumbering where
  target : PoolBuilder
  seen : Std.HashMap PoolIndex PoolIndex

/-- A step of rebuilding a pool. -/
abbrev Renumber := StateT Renumbering (Except ClassError)

namespace Renumbering

/-- Nothing moved yet. -/
def start : Renumbering := ⟨.empty, ∅⟩

/-- The index of a constant of the new pool. -/
def intern (c : Constant) : Renumber PoolIndex := fun ⟨target, seen⟩ =>
  match PoolBuilder.intern c target with
  | .ok index target => .ok (index, ⟨target, seen⟩)
  | .error e _ => .error e

/-- The new index of an old one, moving the constant if that has not happened: first what it refers
to, then the constant itself. The nesting of constants is bounded by `depth`, which a pool without
cycles stays below when it is above the number of slots. -/
def move (old : ConstantPool) : (depth : Nat) → PoolIndex → Renumber PoolIndex
  | 0, index => throw (.cyclicConstant index)
  | depth + 1, index => do
    match (← get).seen[index]? with
    | some moved => return moved
    | none =>
      let c ← old.get index
      let c ← c.mapRefs (move old depth)
      let moved ← intern c
      modify fun r => { r with seen := r.seen.insert index moved }
      return moved

/-- The new index of an old one. -/
def required (old : ConstantPool) (index : PoolIndex) : Renumber PoolIndex :=
  move old (old.slotCount + 1) index

/-- The new index of an old one, where index 0 stays. -/
def optional (old : ConstantPool) (index : PoolIndex) : Renumber PoolIndex :=
  if index = 0 then return 0 else required old index

/-- The new index of an operand, which has to fit it. -/
def operand (old : ConstantPool) : OperandWidth → PoolIndex → Renumber PoolIndex
  | .wide, index => required old index
  | .narrow, index => do
    let moved ← required old index
    unless moved < 256 do throw (.overflow .renumberedLoadOperand)
    return moved

/-- A code array with its operands renumbered. -/
def code (old : ConstantPool) (bytes : Bytes) : Renumber Bytes := do
  let instructions ← Bytecode.decode bytes
  return Bytecode.encode (← instructions.mapM (·.mapRef (operand old)))

/-- Renumbering as a map of references. -/
def refMap (old : ConstantPool) : RefMap Renumber PoolIndex PoolIndex Bytes Bytes where
  required := required old
  optional := optional old
  code := code old

/-- Move the constants that a method's code loads with one byte. -/
def moveNarrow (old : ConstantPool) (method : Member) : Renumber Unit :=
  method.attributes.forM fun a =>
    match a.body with
    | .code c => do (← Bytecode.narrowRefs c.code).forM fun index => discard (required old index)
    | _ => return

end Renumbering

namespace ClassFile

/-- The class with its pool rebuilt. -/
def renumbered (c : ClassFile) : Except ClassError ClassFile := do
  let pass : Renumber (ClassOf PoolIndex Bytes) := do
    c.methods.forM (Renumbering.moveNarrow c.pool)
    c.toClassOf.mapRefs (Renumbering.refMap c.pool)
  let (moved, r) ← pass Renumbering.start
  return { moved with pool := r.target.pool }

/-- The class without debug attributes and with its pool rebuilt. -/
def stripped (c : ClassFile) : Except ClassError ClassFile := do
  (← c.withoutDebug).renumbered

/-- The normal form of a class file. -/
def normalize (bytes : Bytes) : Except ClassError Bytes := do
  (← (← parse bytes).stripped).toBytes

end ClassFile

end ProcessorBench
