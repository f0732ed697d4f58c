import ProcessorBench.ClassFile.Error
import ProcessorBench.Compilation.Error
import ProcessorBench.Suite.Target

/-!
# Why a case fails
-/

namespace ProcessorBench

/-- One of the two compilations of a case. -/
inductive Side where
  /-- The stub, with the processor attached. -/
  | generated
  /-- The expected source, without it. -/
  | expected
deriving DecidableEq, Repr

/-- The words for a compilation. -/
def Side.description : Side → String
  | .generated => exampleClass ++ " (with annotation processor)"
  | .expected => exampleClass ++ " (no annotation processor)"

/-- How two classes differ. -/
structure Difference where
  generatedSize : Nat
  expectedSize : Nat
  /-- The first place where the bytes differ; `none` if one class is the start of the other. -/
  position : Option Nat
  /-- The members that only the generated class has. -/
  onlyGenerated : List String
  /-- The members that only the expected class has. -/
  onlyExpected : List String
deriving DecidableEq, Repr

/-- A reason why a case fails. -/
inductive CaseFailure where
  /-- The declaration has no expected source. -/
  | missingExpected
  /-- A source does not compile. -/
  | compile (side : Side)
  /-- A compilation gives no class of the name. -/
  | missingArtifact (side : Side) (unit : String)
  | mismatch (case : String) (difference : Difference)
  /-- A class cannot be brought into normal form. -/
  | normalize (side : Side) (source : ClassError)
  /-- A compilation cannot be carried out. -/
  | io (side : Side) (source : CompileError)
deriving DecidableEq, Repr

/-- Some members with a label, or nothing if there are none. -/
def Difference.membersText (label : String) (members : List String) : String :=
  if members.isEmpty then "" else "; " ++ label ++ ": " ++ ", ".intercalate members

/-- The text of a difference. -/
def Difference.message (d : Difference) : String :=
  "normalized class files differ (generated " ++ toString d.generatedSize ++ " bytes, expected " ++
    toString d.expectedSize ++ " bytes" ++
    (d.position.elim "" fun at_ => ", first difference at byte " ++ toString at_) ++ ")" ++
    membersText "only in generated" d.onlyGenerated ++
    membersText "only in expected" d.onlyExpected

/-- The text of a reason. -/
def CaseFailure.message : CaseFailure → String
  | .missingExpected => "Either one of \x60expected\x60 or \x60expectedFile\x60 must be set!"
  | .compile side => "Could not compile " ++ side.description
  | .missingArtifact side unit => side.description ++ " produced no class " ++ unit
  | .mismatch case difference => case ++ ": " ++ difference.message
  | .normalize side source =>
    "cannot normalize output of " ++ side.description ++ ": " ++ source.message
  | .io side source => "while compiling " ++ side.description ++ ": " ++ source.message

end ProcessorBench
