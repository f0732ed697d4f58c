import ProcessorBench.Compilation.Host

/-!
# Compilers that go by rules

A compiler for trying out what is built on compilers: it looks up in a list of rules what to do with a
source, and compiles nothing.
-/

namespace ProcessorBench

/-- What to do with a source. -/
structure CompileRule where
  /-- The source that the rule is for, if no processor is attached. -/
  source : Option String := none
  /-- The processor that the rule is for. -/
  processor : Option String := none
  /-- Whether to remove the directory that holds the one for classes. -/
  removesWorkspace : Bool := false
  /-- Why the compiler cannot be run. -/
  failure : Option String := none
  /-- The files to write among the classes, and the directories, which have no content. -/
  outputs : List (Path × Option Bytes) := []
  /-- Whether the source is accepted. -/
  accepts : Bool := true

namespace RuleCompiler

/-- The program that reports name. -/
def program : Path := ⟨"scripted"⟩

/-- Whether a rule is for a request. None is for a source that cannot be read. -/
def isFor (request : CompileRequest) (source : Option String) (rule : CompileRule) : Bool :=
  match source, request.processor with
  | none, _ => false
  | some text, none => rule.source = some text
  | some _, some p => rule.processor = some p.className

/-- Write a file or a directory below another, as far as that is possible. -/
def writeOutput {ε : Type} (dir : Path) : Path × Option Bytes → HostStep ε Unit
  | (place, content) => do
    let path := dir.join place
    let step : DiskStep Unit := match content with
      | none => Disk.createDirAll path
      | some bytes => do
        if let some parent := path.parent? then Disk.createDirAll parent
        Disk.write path bytes
    let _ ← HostStep.attempt (HostStep.onDisk id step)

/-- Follow a rule. -/
def follow (request : CompileRequest) (rule : CompileRule) : HostStep CompileError Bool := do
  if rule.removesWorkspace then
    if let some workspace := request.outputDir.parent? then
      let _ ← HostStep.attempt (HostStep.onDisk id (Disk.removeDirAll workspace))
  if let some reason := rule.failure then throw (.launch program reason)
  rule.outputs.forM (writeOutput request.outputDir)
  return rule.accepts

/-- The compiler that goes by some rules. It follows the first that is for the request, and rejects a source
that none is for. -/
def ofRules (rules : List CompileRule) : Compiler := fun request => do
  let source := (← HostStep.disk).readText? request.sourceFile
  match rules.find? (isFor request source) with
  | some rule => follow request rule
  | none => return false

end RuleCompiler

end ProcessorBench
