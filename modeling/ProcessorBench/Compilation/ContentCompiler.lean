import ProcessorBench.Compilation.Job

/-!
# Compilers that go by content

A compiler that goes by what a request holds: the source, the processor with its classes, and the places to look
for other classes. What it leaves in the directories for its output, and whether it accepts the source, is said by
an answer to what it has seen. The answer may be any function, so that it may go by whatever else stays as it is
while the compiler is in use, such as what is at those places.
-/

namespace ProcessorBench

/-- What a compiler sees of a request. -/
structure RequestContent where
  /-- The names on the way from the workspace to the source. -/
  place : List String
  /-- The source, if it can be read. -/
  source : Option Bytes
  /-- The places to look for classes, but for the last one, where the compilation puts its own. -/
  classPath : List Path
  /-- The class of the processor, and what is in the directory with its classes. -/
  processor : Option (String × Option FileTree)
  /-- What is in the directory for classes already. -/
  classes : Option FileTree
  /-- What is in the directory for sources that the processor makes. -/
  generated : Option FileTree

/-- What a compiler does about a request. -/
structure CompilerAnswer where
  /-- What is then in the directory for classes. -/
  classes : List DirEntry
  /-- What is then in the directory for sources that the processor makes. -/
  generated : List DirEntry
  /-- Whether the source is accepted, unless the compiler cannot be run. -/
  result : Except CompileError Bool
  classes_wellFormed : (FileTree.dir classes).WellFormed
  generated_wellFormed : (FileTree.dir generated).WellFormed

namespace Disk

/-- Replace all that is in a directory. -/
def fill (p : Path) (entries : List DirEntry) : DiskStep Unit := do
  let location ← locating p
  match (← get).tree.at? location with
  | some (.dir _) => putAt location (some (.dir entries))
  | some (.file ..) => throw .notDirectory
  | none => throw .missing

end Disk

namespace ContentCompiler

/-- What there is to be seen of a request. -/
def content (request : CompileRequest) (disk : Disk) : RequestContent where
  place := request.sourceFile.segments.drop (request.outputDir.segments.length - 1)
  source := (disk.read request.sourceFile).toOption
  classPath := request.classPath.dropLast
  processor := request.processor.map fun p => (p.className, (disk.lookup p.path).toOption)
  classes := (disk.lookup request.outputDir).toOption
  generated := (disk.lookup request.generatedDir).toOption

/-- Replace all that is in a directory, if it is there. -/
def leave (dir : Path) (entries : List DirEntry) : HostStep CompileError Unit := do
  let _ ← HostStep.attempt (HostStep.onDisk id (Disk.fill dir entries))

/-- Act on a request as an answer says. -/
def act (request : CompileRequest) (a : CompilerAnswer) : HostStep CompileError Bool := do
  leave request.outputDir a.classes
  leave request.generatedDir a.generated
  HostStep.ofExcept a.result

/-- The compiler that gives some answers. -/
def ofAnswers (answer : RequestContent → CompilerAnswer) : Compiler := fun request => do
  let seen := content request (← HostStep.disk)
  act request (answer seen)

/-- Keep a request, and look at its content. -/
def look (request : CompileRequest) : HostStep CompileError RequestContent := do
  modify fun h => { h with calls := ⟨request, h.disk⟩ :: h.calls }
  return content request (← HostStep.disk)

/-- Act on a request in several steps. -/
def actJob (request : CompileRequest) (a : CompilerAnswer) : Job CompileError Bool := do
  Job.ofStep (leave request.outputDir a.classes)
  Job.ofStep (leave request.generatedDir a.generated)
  Job.done a.result

/-- Ask the compiler that gives some answers, which looks first and acts then. -/
def call (answer : RequestContent → CompilerAnswer) (request : CompileRequest) :
    Job CompileError Bool := do
  let seen ← Job.ofStep (look request)
  actJob request (answer seen)

theorem run_actJob (request : CompileRequest) (a : CompilerAnswer) :
    (actJob request a).run = act request a := by
  refine (Job.run_bind _ _).trans ?_
  rw [Job.run_ofStep]
  apply bind_congr
  intro _
  refine (Job.run_bind _ _).trans ?_
  rw [Job.run_ofStep]
  rfl

/-- The steps of the compiler in a row are what it does. -/
theorem run_call (answer : RequestContent → CompilerAnswer) (request : CompileRequest) :
    (call answer request).run = Compiler.call (ofAnswers answer) request := by
  refine (Job.run_bind _ _).trans ?_
  simp only [Job.run_ofStep, run_actJob]
  rfl

end ContentCompiler

end ProcessorBench
