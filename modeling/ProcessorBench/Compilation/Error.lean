import ProcessorBench.FileTree.Path

/-!
# What can go wrong with a compilation

A compiler that reports errors in a source is no fault. `CompileError` lists the faults: no compiler, no
room to work in, or a name that no source file can have.
-/

namespace ProcessorBench

/-- What the operating system says about a failure differs between systems. This text stands for it, so
that reports are the same on all of them. -/
def systemMessage : String := "<message>"

/-- What was being done with a file or a directory when it failed. -/
inductive FileAction where
  | create
  | write
  | read
  | walk
  | delete
deriving DecidableEq, Repr

/-- The word for an action. -/
def FileAction.word : FileAction → String
  | .create => "create"
  | .write => "write"
  | .read => "read"
  | .walk => "walk"
  | .delete => "delete"

/-- A fault of a compilation. -/
inductive CompileError where
  /-- There is no such program. -/
  | compilerNotFound (program : Path)
  /-- The program could not be run. -/
  | launch (program : Path) (reason : String)
  /-- A file or a directory could not be used. -/
  | io (action : FileAction) (path : Path)
  /-- The name of a unit gives no source file. -/
  | invalidUnitName (unit : String)
deriving DecidableEq, Repr

/-- The text of a fault. -/
def CompileError.message : CompileError → String
  | .compilerNotFound program =>
    "compiler '" ++ program.text ++
      "' not found: install a JDK, set JAVA_HOME, or point DIAMOND_JAVAC at javac"
  | .launch program reason => "failed to run '" ++ program.text ++ "': " ++ reason
  | .io action path => "cannot " ++ action.word ++ " " ++ path.text ++ ": " ++ systemMessage
  | .invalidUnitName unit => "invalid unit name '" ++ unit ++ "'"

end ProcessorBench
