import ProcessorBench.Compilation.Workbench

/-!
# Jobs

A `Job` is work on a host that is cut into steps, so that other jobs may take theirs in between. `Job.run`
takes all steps in a row. The jobs of this module, taken in a row, are those of the workbench, with any way to
call a compiler in the place of its compiler.
-/

namespace ProcessorBench

/-- Work on a host, step by step. A new workspace is a step of its own kind, since which one it can be depends
on the workspaces that other jobs have. -/
inductive Job (ε α : Type) : Type 1 where
  | done (result : Except ε α)
  | act {ε' β : Type} (step : HostStep ε' β) (next : Except ε' β → Job ε α)
  | reserve (next : Except CompileError Workspace → Job ε α)

namespace Job

variable {ε ε' α β : Type}

/-- Go on after a job with what has become of it. -/
def andThen : Job ε α → (Except ε α → Job ε' β) → Job ε' β
  | .done result, k => k result
  | .act step next, k => .act step fun r => (next r).andThen k
  | .reserve next, k => .reserve fun r => (next r).andThen k

/-- Go on after a job, unless it has failed. -/
def bind (job : Job ε α) (k : α → Job ε β) : Job ε β :=
  job.andThen fun
    | .ok a => k a
    | .error e => .done (.error e)

instance : Monad (Job ε) where
  pure a := .done (.ok a)
  bind := bind

/-- A job of one step. -/
def ofStep (step : HostStep ε α) : Job ε α := .act step .done

/-- Take all steps of a job in a row. -/
def run : Job ε α → HostStep ε α
  | .done result => HostStep.ofExcept result
  | .act step next => HostStep.attempt step >>= fun r => (next r).run
  | .reserve next => HostStep.attempt Workspace.reserve >>= fun r => (next r).run

/-! ## Workspaces -/

/-- Create the directories of a workspace. -/
def createDirs (w : Workspace) : Job CompileError Unit :=
  w.dirs.forM fun dir => ofStep (HostStep.doing .create dir (Disk.createDir dir))

/-- Create a workspace. One that cannot be completed is removed. -/
def create : Job CompileError Workspace :=
  .reserve fun
    | .error e => .done (.error e)
    | .ok workspace =>
      (createDirs workspace).andThen fun
        | .ok () => .done (.ok workspace)
        | .error fault => .act workspace.close fun _ => .done (.error fault)

/-- Create the directories that a file needs. -/
def createParent (path : Path) : Job CompileError Unit :=
  match path.parent? with
  | some parent => ofStep (HostStep.doing .create parent (Disk.createDirAll parent))
  | none => pure ()

/-- Write a file, and the directories that it needs. -/
def writeFile (path : Path) (content : Bytes) : Job CompileError Unit := do
  createParent path
  ofStep (HostStep.doing .write path (Disk.write path content))

/-- Write the source of a unit to the place that belongs to its name, which is the result. -/
def writeSource (w : Workspace) (unit source : String) : Job CompileError Path :=
  match UnitName.path? unit "java" with
  | none => .done (.error (.invalidUnitName unit))
  | some place => do
    writeFile (w.sourcesDir.join place) (Utf8.encode source)
    return w.sourcesDir.join place

/-- Write all artifacts below a directory, each to its place. -/
def writeTo (s : ArtifactSet) (dir : Path) : Job CompileError Unit :=
  s.entries.forM fun (_, a) => writeFile (dir.join a.path) a.content

/-! ## Compilations -/

/-- The source of a unit: where it has been written to, if it is a text, or its place among the sources. -/
def provideSource (b : Workbench) (w : Workspace) (unit : String) (place : Path) :
    Option String → Job CompileError Path
  | some text => writeSource w unit text
  | none => pure (b.sourceRoot.join place)

/-- Write the classes of a processor, if there is one. -/
def provideProcessor (w : Workspace) : Option Processor → Job CompileError Unit
  | some p => writeTo p.artifacts w.processorDir
  | none => pure ()

/-- Put what belongs in a workspace before the compiler is asked. -/
def prepare (b : Workbench) (w : Workspace) (unit : String) (place : Path) (source : Option String)
    (processor : Option Processor) : Job CompileError Path := do
  let sourceFile ← provideSource b w unit place source
  provideProcessor w processor
  return sourceFile

/-- Compile a unit, whose place is given too, in a workspace. -/
def compileIn (b : Workbench) (call : CompileRequest → Job CompileError Bool) (w : Workspace)
    (unit : String) (place : Path) (source : Option String) (processor : Option Processor) :
    Job CompileError (Option ArtifactSet) := do
  let sourceFile ← prepare b w unit place source processor
  let accepted ← call (b.request w sourceFile processor)
  ofStep do HostStep.ofExcept (Workbench.gather w unit accepted (← HostStep.disk))

/-- Remove the workspace of a compilation that is over. -/
def settle (w : Workspace) (result : Except CompileError α) : Job CompileError α :=
  .act w.close fun
    | .ok () => .done result
    | .error fault =>
      match result with
      | .ok _ => .done (.error fault)
      | .error first => .done (.error first)

/-- Compile a unit. -/
def compile (b : Workbench) (call : CompileRequest → Job CompileError Bool) (unit : String)
    (source : Option String) (processor : Option Processor) :
    Job CompileError (Option ArtifactSet) :=
  match UnitName.path? unit "java" with
  | none => .done (.error (.invalidUnitName unit))
  | some place => do
    let workspace ← create
    (compileIn b call workspace unit place source processor).andThen (settle workspace)

/-! ## The steps of jobs in a row -/

theorem outcome_run_act (step : HostStep ε' β) (next : Except ε' β → Job ε α) (h : Host) :
    (Job.act step next).run.outcome h = (next (step.outcome h).1).run.outcome (step.outcome h).2 :=
  HostStep.outcome_attempt_bind step _ h

theorem outcome_run_reserve (next : Except CompileError Workspace → Job ε α) (h : Host) :
    (Job.reserve next).run.outcome h =
      (next (Workspace.reserve.outcome h).1).run.outcome (Workspace.reserve.outcome h).2 :=
  HostStep.outcome_attempt_bind Workspace.reserve _ h

theorem outcome_run_done (result : Except ε α) (h : Host) :
    (Job.done result).run.outcome h = (result, h) := HostStep.outcome_ofExcept result h

theorem run_ofStep (step : HostStep ε α) : (ofStep step).run = step :=
  HostStep.ext_outcome fun h => by rw [ofStep, outcome_run_act, outcome_run_done]

/-- **The steps of two jobs** in a row are those of the first and then those of the second. -/
theorem outcome_run_andThen (job : Job ε α) (k : Except ε α → Job ε' β) (h : Host) :
    (job.andThen k).run.outcome h = (k (job.run.outcome h).1).run.outcome (job.run.outcome h).2 := by
  induction job generalizing h with
  | done result => rw [andThen, outcome_run_done]
  | act step next ih => rw [andThen, outcome_run_act, outcome_run_act, ih]
  | reserve next ih => rw [andThen, outcome_run_reserve, outcome_run_reserve, ih]

theorem run_andThen (job : Job ε α) (k : Except ε α → Job ε' β) :
    (job.andThen k).run = HostStep.attempt job.run >>= fun r => (k r).run :=
  HostStep.ext_outcome fun h => by rw [outcome_run_andThen, HostStep.outcome_attempt_bind]

theorem run_bind (job : Job ε α) (k : α → Job ε β) :
    (job >>= k).run = job.run >>= fun a => (k a).run := by
  apply HostStep.ext_outcome
  intro h
  refine (outcome_run_andThen job _ h).trans ?_
  rw [HostStep.outcome_bind]
  rcases job.run.outcome h with ⟨_ | a, h'⟩
  · exact outcome_run_done _ h'
  · rfl

theorem run_forM (as : List α) (f : α → Job ε PUnit) : (as.forM f).run = as.forM fun a => (f a).run := by
  induction as with
  | nil => rfl
  | cons a as ih =>
    refine (run_bind (f a) fun _ => as.forM f).trans ?_
    exact bind_congr fun _ => ih

/-! ## The jobs of a compilation in a row -/

theorem run_createDirs (w : Workspace) : (createDirs w).run = w.createDirs := by
  refine (run_forM _ _).trans ?_
  simp only [run_ofStep]
  rfl

theorem run_create : create.run = Workspace.create := by
  apply HostStep.ext_outcome
  intro h
  rw [create, outcome_run_reserve, Workspace.create_eq, HostStep.outcome_bind]
  rcases Workspace.reserve.outcome h with ⟨e | w, h'⟩
  · exact outcome_run_done _ h'
  · simp only
    rw [outcome_run_andThen, run_createDirs, HostStep.outcome_attempt_bind]
    rcases w.createDirs.outcome h' with ⟨fault | _, h''⟩
    · simp only
      rw [outcome_run_act, outcome_run_done, HostStep.outcome_attempt_bind]
      rfl
    · exact outcome_run_done _ h''

theorem run_writeFile (path : Path) (content : Bytes) :
    (writeFile path content).run = Workspace.writeFile path content := by
  refine (run_bind _ _).trans ?_
  rw [run_ofStep]
  unfold createParent Workspace.writeFile
  cases path.parent? with
  | none => rfl
  | some parent =>
    simp only
    rw [run_ofStep]

theorem run_writeSource (w : Workspace) (unit source : String) :
    (writeSource w unit source).run = w.writeSource unit source := by
  unfold writeSource Workspace.writeSource
  cases UnitName.path? unit "java" with
  | none => rfl
  | some place =>
    refine (run_bind _ _).trans ?_
    rw [run_writeFile]
    rfl

theorem run_writeTo (s : ArtifactSet) (dir : Path) : (writeTo s dir).run = s.writeTo dir := by
  refine (run_forM _ _).trans ?_
  simp only [run_writeFile]
  rfl

theorem run_provideProcessor (w : Workspace) (processor : Option Processor) (sourceFile : Path) :
    (do provideProcessor w processor; return sourceFile : Job CompileError Path).run =
      do
        if let some p := processor then p.artifacts.writeTo w.processorDir
        return sourceFile := by
  refine (run_bind _ _).trans ?_
  cases processor with
  | none => rfl
  | some p =>
    rw [provideProcessor, run_writeTo]
    rfl

theorem run_prepare (b : Workbench) (w : Workspace) (unit : String) (place : Path)
    (source : Option String) (processor : Option Processor) :
    (prepare b w unit place source processor).run = b.prepare w unit place source processor := by
  refine (run_bind _ _).trans ?_
  unfold Workbench.prepare
  cases source with
  | none =>
    refine Eq.trans ?_ (bind_congr fun sourceFile => run_provideProcessor w processor sourceFile)
    rfl
  | some text =>
    rw [provideSource, run_writeSource]
    exact bind_congr fun sourceFile => run_provideProcessor w processor sourceFile

/-- A compilation in a workspace, whatever the steps in which the compiler works. -/
theorem run_compileIn {b : Workbench} {call : CompileRequest → Job CompileError Bool}
    (called : ∀ request, (call request).run = b.compiler.call request) (w : Workspace) (unit : String)
    (place : Path) (source : Option String) (processor : Option Processor) :
    (compileIn b call w unit place source processor).run =
      b.compileIn w unit place source processor := by
  unfold compileIn Workbench.compileIn
  refine (run_bind _ _).trans ?_
  rw [run_prepare]
  apply bind_congr
  intro sourceFile
  refine (run_bind _ _).trans ?_
  rw [called]
  apply bind_congr
  intro accepted
  exact run_ofStep _

theorem run_settle (w : Workspace) (result : Except CompileError α) :
    (settle w result).run = Workbench.settle w result := by
  apply HostStep.ext_outcome
  intro h
  rw [settle, outcome_run_act, Workbench.settle_eq, HostStep.outcome_attempt_bind]
  rcases w.close.outcome h with ⟨fault | _, h'⟩
  · cases result <;> rfl
  · rfl

/-- **The steps of a compilation** in a row are what the workbench does. -/
theorem run_compile {b : Workbench} {call : CompileRequest → Job CompileError Bool}
    (called : ∀ request, (call request).run = b.compiler.call request) (unit : String)
    (source : Option String) (processor : Option Processor) :
    (compile b call unit source processor).run = b.compile unit source processor := by
  rw [Workbench.compile_eq]
  unfold compile
  cases UnitName.path? unit "java" with
  | none => rfl
  | some place =>
    refine (run_bind _ _).trans ?_
    rw [run_create]
    apply bind_congr
    intro w
    rw [run_andThen, run_compileIn called]
    exact bind_congr fun result => run_settle w result

end Job

end ProcessorBench
