import ProcessorBench.ClassFile.Normal
import ProcessorBench.ClassFile.Reflection
import ProcessorBench.Compilation.Workbench
import ProcessorBench.Suite.CaseFailure
import ProcessorBench.Text.Quoted

/-!
# Cases

A case compiles two sources, a stub with the processor attached and the expected source without it, and
compares the classes that they give in normal form.
-/

namespace ProcessorBench

/-- What a case does. -/
inductive CasePlan where
  | compare (processor : Processor) (stub expected : String)
  /-- Nothing, since its declaration has no expected source. -/
  | missingExpected
deriving DecidableEq, Repr

/-- A case, named for its processor. -/
structure TestCase where
  name : String
  plan : CasePlan
deriving DecidableEq, Repr

namespace Difference

/-- The members of a class with their descriptors, or nothing if they cannot be found out. -/
def membersOf (bytes : Bytes) : List String :=
  match ClassFile.parse bytes with
  | .error _ => []
  | .ok c =>
    (c.fieldSignatures.toOption.getD []).map (fun (name, d) => "field " ++ name ++ ":" ++ d) ++
      (c.methodSignatures.toOption.getD []).map fun (name, d) => "method " ++ name ++ d

/-- The first place where two byte strings have different bytes. -/
def positionOf (a b : Bytes) : Option Nat := (a.zip b).findIdx? fun (x, y) => x != y

/-- How two classes differ. -/
def between (generated expected : Bytes) : Difference :=
  let generatedMembers := membersOf generated
  let expectedMembers := membersOf expected
  { generatedSize := generated.length
    expectedSize := expected.length
    position := positionOf generated expected
    onlyGenerated := generatedMembers.filter (!expectedMembers.contains ·)
    onlyExpected := expectedMembers.filter (!generatedMembers.contains ·) }

end Difference

namespace TestCase

/-- The class that a compilation for a case has to make. -/
def classOf (side : Side) : Except CompileError (Option ArtifactSet) → Except CaseFailure Bytes
  | .error e => .error (.io side e)
  | .ok none => .error (.compile side)
  | .ok (some artifacts) =>
    match artifacts.find? exampleClass with
    | none => .error (.missingArtifact side exampleClass)
    | some artifact => .ok artifact.content

/-- Compile one of the two sources of a case. The result is the class that it has to make. -/
def compileSide (bench : Workbench) (side : Side) (source : String) (processor : Option Processor) :
    HostStep CaseFailure Bytes := do
  HostStep.ofExcept (classOf side
    (← HostStep.attempt (bench.compile exampleClass (some source) processor)))

/-- Compare two classes in normal form. -/
def compareClasses (name : String) (generated expected : Bytes) : Except CaseFailure Unit := do
  let generated ← (ClassFile.normalize generated).mapError (.normalize .generated)
  let expected ← (ClassFile.normalize expected).mapError (.normalize .expected)
  if generated = expected then return ()
  else throw (.mismatch name (.between generated expected))

/-- Run a case. -/
def run (c : TestCase) (bench : Workbench) : HostStep CaseFailure Unit := do
  match c.plan with
  | .missingExpected => throw .missingExpected
  | .compare processor stub expected =>
    let generated ← compileSide bench .generated stub (some processor)
    let expected ← compileSide bench .expected expected none
    HostStep.ofExcept (compareClasses c.name generated expected)

/-- The text of a case. -/
def describe (c : TestCase) : String :=
  let plan := match c.plan with
    | .compare .. => "Compare"
    | .missingExpected => "MissingExpected"
  "CompileTestCase \x7b name: " ++ Quoted.text c.name ++ ", plan: " ++ Quoted.text plan ++ " \x7d"

end TestCase

end ProcessorBench
