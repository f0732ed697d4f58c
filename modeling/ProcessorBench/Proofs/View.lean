import ProcessorBench.Proofs.ConstantTree

/-!
# Classes without a pool

What a class says does not depend on where its constants stand. `ClassFile.view` replaces every
index by the tree of constants it reaches, with nothing for an index 0 that means "none", and every
code array by its instructions over such trees; a body that is not taken apart stays as it is. It
fails where an index that the class needs leads nowhere or a code array cannot be cut into
instructions.
-/

namespace ProcessorBench

/-- A code array whose operands are trees. -/
abbrev CodeView := List (InstructionOf ConstantTree)

/-- A class whose references are trees, or nothing where the class leaves one out. -/
abbrev ClassView := ClassOf (Option ConstantTree) CodeView

namespace ConstantPool

/-- What an index that has to name a constant refers to. -/
def requiredView (pool : ConstantPool) (index : PoolIndex) :
    Except ClassError (Option ConstantTree) :=
  return some (← pool.tree index)

/-- What an index that may be 0 refers to. -/
def optionalView (pool : ConstantPool) (index : PoolIndex) :
    Except ClassError (Option ConstantTree) :=
  if index = 0 then return none else pool.requiredView index

/-- The instructions of a code array with what their operands refer to. -/
def codeView (pool : ConstantPool) (code : Bytes) : Except ClassError CodeView := do
  (← Bytecode.decode code).mapM (·.mapRef fun _ index => pool.tree index)

/-- Looking references up as a map of references. -/
def viewMap (pool : ConstantPool) :
    RefMap (Except ClassError) PoolIndex (Option ConstantTree) Bytes CodeView where
  required := pool.requiredView
  optional := pool.optionalView
  code := pool.codeView

end ConstantPool

/-- What a class says, without its pool. -/
def ClassFile.view (c : ClassFile) : Except ClassError ClassView := c.toClassOf.mapRefs c.pool.viewMap

end ProcessorBench
