import ProcessorBench.Compilation.Artifacts

/-!
# Workbenches

A `Workbench` compiles single units, each in a workspace of its own. The result is what the compiler has left
in the directory for classes, or nothing if it reports errors or does not make the class of the unit.
-/

namespace ProcessorBench

/-- An annotation processor, as it has been compiled. -/
structure Processor where
  /-- The binary name of its class. -/
  className : String
  artifacts : ArtifactSet
deriving DecidableEq, Repr

/-- A compiler with what it needs besides a source. -/
structure Workbench where
  /-- Where sources are that are not given as text. -/
  sourceRoot : Path
  classPath : List Path
  compiler : Compiler

namespace Workbench

/-- The request for a source in a workspace. The class path ends with the sources and with the classes that
the compilation itself makes. -/
def request (b : Workbench) (w : Workspace) (sourceFile : Path) (processor : Option Processor) :
    CompileRequest :=
  { sourceFile
    classPath := b.classPath ++ [b.sourceRoot, w.classesDir]
    outputDir := w.classesDir
    generatedDir := w.generatedDir
    processor := processor.map fun p => ⟨p.className, w.processorDir⟩ }

/-- Put what belongs in a workspace before the compiler is asked: the source, if it is a text, and the classes
of the processor. The result is where the source is. -/
def prepare (b : Workbench) (w : Workspace) (unit : String) (place : Path) (source : Option String)
    (processor : Option Processor) : HostStep CompileError Path := do
  let sourceFile ← match source with
    | some text => w.writeSource unit text
    | none => pure (b.sourceRoot.join place)
  if let some p := processor then
    p.artifacts.writeTo w.processorDir
  return sourceFile

/-- What a compiler has left in a workspace, if it accepts the source and has made the class of the unit. -/
def gather (w : Workspace) (unit : String) (accepted : Bool) (disk : Disk) :
    Except CompileError (Option ArtifactSet) :=
  let isMade := (UnitName.path? unit "class").any fun file => disk.isFile (w.classesDir.join file)
  if accepted && isMade then (ArtifactSet.collect disk w.classesDir).map some else .ok none

/-- Compile a unit, whose place is given too, in a workspace. -/
def compileIn (b : Workbench) (w : Workspace) (unit : String) (place : Path)
    (source : Option String) (processor : Option Processor) :
    HostStep CompileError (Option ArtifactSet) := do
  let sourceFile ← b.prepare w unit place source processor
  let accepted ← b.compiler.call (b.request w sourceFile processor)
  HostStep.ofExcept (gather w unit accepted (← HostStep.disk))

end Workbench

/-- Remove the workspace of a compilation that is over. If that fails, it is the first fault that counts. -/
def TemporaryDirs.settle {α : Type} (t : TemporaryDirs) (w : Workspace) (result : Except CompileError α) :
    HostStep CompileError α := do
  match ← HostStep.attempt (t.close w) with
  | .ok () => HostStep.ofExcept result
  | .error fault =>
    match result with
    | .ok _ => throw fault
    | .error first => throw first

namespace Workbench

/-- Compile a unit, from a text or from its place among the sources, with a processor attached or without, in
a workspace that is removed in any case. -/
def compileWith (b : Workbench) (t : TemporaryDirs) (unit : String) (source : Option String)
    (processor : Option Processor) : HostStep CompileError (Option ArtifactSet) := do
  match UnitName.path? unit "java" with
  | none => throw (.invalidUnitName unit)
  | some place =>
    let workspace ← t.create
    t.settle workspace (← HostStep.attempt (b.compileIn workspace unit place source processor))

/-- Remove the workspace of a compilation that is over. -/
def settle {α : Type} (w : Workspace) (result : Except CompileError α) : HostStep CompileError α :=
  TemporaryDirs.numbered.settle w result

/-- Compile a unit. -/
def compile (b : Workbench) (unit : String) (source : Option String)
    (processor : Option Processor) : HostStep CompileError (Option ArtifactSet) :=
  b.compileWith .numbered unit source processor

theorem settle_eq {α : Type} (w : Workspace) (result : Except CompileError α) : settle w result = (do
    match ← HostStep.attempt w.close with
    | .ok () => HostStep.ofExcept result
    | .error fault =>
      match result with
      | .ok _ => throw fault
      | .error first => throw first) := rfl

theorem compile_eq (b : Workbench) (unit : String) (source : Option String)
    (processor : Option Processor) : b.compile unit source processor =
      (match UnitName.path? unit "java" with
      | none => throw (.invalidUnitName unit)
      | some place => do
        let workspace ← Workspace.create
        settle workspace (← HostStep.attempt (b.compileIn workspace unit place source processor))) := rfl

end Workbench

end ProcessorBench
