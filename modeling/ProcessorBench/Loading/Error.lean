import ProcessorBench.ClassFile.Error
import ProcessorBench.Compilation.Error

/-!
# Why a class cannot be loaded
-/

namespace ProcessorBench

/-- A reason why a class cannot be loaded. -/
inductive LoadError where
  /-- Nothing is known of the class. -/
  | notFound (name : String)
  /-- What is kept under one name is a class of another. -/
  | wrongName (expected found : String)
  /-- What is kept under the name is no class. -/
  | malformed (name : String) (source : ClassError)
  /-- A file of a class path directory cannot be read. -/
  | io (path : Path)
  /-- An archive of a class path cannot be read. -/
  | archive (path : Path)
deriving DecidableEq, Repr

/-- The text of a reason. -/
def LoadError.message : LoadError → String
  | .notFound name => "class not found: " ++ name
  | .wrongName expected found =>
    "bytes registered as \x60" ++ expected ++ "\x60 define \x60" ++ found ++ "\x60"
  | .malformed name source => "malformed class \x60" ++ name ++ "\x60: " ++ source.message
  | .io path => "cannot read " ++ path.text ++ ": " ++ systemMessage
  | .archive path => "cannot read archive " ++ path.text ++ ": " ++ systemMessage

end ProcessorBench
