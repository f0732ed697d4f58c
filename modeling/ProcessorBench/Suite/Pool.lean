import ProcessorBench.Compilation.Job
import ProcessorBench.Suite.Runner

/-!
# Running several tests at a time

A `Pool` holds jobs that work on one host. Any of them may take its next step at any time, so that a schedule is
a list of moves. The results stand in the order of the jobs, whatever the order of the steps.
-/

namespace ProcessorBench

/-- Jobs on a host. -/
structure Pool (α : Type) where
  host : Host
  workers : List (Job Empty α)

/-- The next step of a worker, and the number of the name that is tried if the step is to make a workspace. -/
structure PoolMove where
  worker : Nat
  number : Nat
deriving DecidableEq, Repr

namespace Job

variable {ε α : Type}

/-- Take a step. Where a new workspace is made, it gets the given name, unless there is something of that name
already: then another one has to be tried. -/
def step (name : String) (h : Host) : Job ε α → Job ε α × Host
  | .done result => (.done result, h)
  | .act step next => let (result, h) := step.outcome h; (next result, h)
  | .reserve next =>
    if h.disk.exists? (Workspace.named h name).root then (.reserve next, h)
    else let (result, h) := (Workspace.reserveAs name).outcome h; (next result, h)

/-- What a job has given, if it is done. -/
def value? : Job Empty α → Option α
  | .done (.ok a) => some a
  | _ => none

end Job

namespace Pool

variable {α : Type}

/-- A move. -/
def step (p : Pool α) (m : PoolMove) : Pool α :=
  match p.workers[m.worker]? with
  | none => p
  | some job =>
    let (job, host) := job.step (Workspace.nameOf m.number) p.host
    { host, workers := p.workers.set m.worker job }

/-- A number of moves. -/
def after (p : Pool α) (moves : List PoolMove) : Pool α := moves.foldl step p

/-- What the jobs have given, if all are done. -/
def values? (p : Pool α) : Option (List α) := p.workers.mapM Job.value?

end Pool

namespace TestCase

/-- Compile one of the two sources of a case, step by step. -/
def sideJob (bench : Workbench) (call : CompileRequest → Job CompileError Bool) (side : Side)
    (source : String) (processor : Option Processor) : Job CaseFailure Bytes :=
  (Job.compile bench call exampleClass (some source) processor).andThen fun result =>
    .done (classOf side result)

/-- Run a case step by step. -/
def job (c : TestCase) (bench : Workbench) (call : CompileRequest → Job CompileError Bool) :
    Job CaseFailure Unit :=
  match c.plan with
  | .missingExpected => .done (.error .missingExpected)
  | .compare processor stub expected => do
    let generated ← sideJob bench call .generated stub (some processor)
    let expected ← sideJob bench call .expected expected none
    .done (compareClasses c.name generated expected)

section
variable {bench : Workbench} {call : CompileRequest → Job CompileError Bool}

theorem run_sideJob (called : ∀ request, (call request).run = bench.compiler.call request) (side : Side)
    (source : String) (processor : Option Processor) :
    (sideJob bench call side source processor).run = compileSide bench side source processor := by
  rw [sideJob, Job.run_andThen, Job.run_compile called]
  rfl

/-- **The steps of a case** in a row are a run of the case. -/
theorem run_job (called : ∀ request, (call request).run = bench.compiler.call request) (c : TestCase) :
    (c.job bench call).run = c.run bench := by
  unfold job run
  cases c.plan with
  | missingExpected => rfl
  | compare processor stub expected =>
    refine (Job.run_bind _ _).trans ?_
    rw [run_sideJob called]
    apply bind_congr
    intro generated
    refine (Job.run_bind _ _).trans ?_
    rw [run_sideJob called]
    rfl

end

end TestCase

namespace Runner

/-- Run a case step by step, if it is to be run. -/
def caseJob (r : Runner) (bench : Workbench) (call : CompileRequest → Job CompileError Bool)
    (c : TestCase) : Job Empty CaseResult :=
  if r.selects c then (c.job bench call).andThen fun result => .done (.ok (resultOf c result))
  else .done (.ok ⟨c.name, .skipped r.skipReason⟩)

/-- **The steps of a case** in a row are what a runner does with the case. -/
theorem run_caseJob {bench : Workbench} {call : CompileRequest → Job CompileError Bool}
    (called : ∀ request, (call request).run = bench.compiler.call request) (r : Runner) (c : TestCase) :
    (r.caseJob bench call c).run = r.runCase bench c := by
  unfold caseJob runCase
  split
  · rw [Job.run_andThen, c.run_job called]
    rfl
  · rfl

/-- The pool with the jobs of some cases. -/
def pool (r : Runner) (bench : Workbench) (call : CompileRequest → Job CompileError Bool)
    (cases : List TestCase) (h : Host) : Pool CaseResult :=
  { host := h, workers := cases.map (r.caseJob bench call) }

/-- Run cases that have been found: several at a time on the given schedule, if that is allowed and there are several,
and else one after the other, as where there is no schedule because no threads can be had. There is no result if the
schedule ends before the cases do. -/
def runCasesOn (r : Runner) (bench : Workbench) (call : CompileRequest → Job CompileError Bool)
    (schedule : Option (List PoolMove)) (cases : List TestCase) (h : Host) :
    Option (Except DiscoveryError Summary × Host) :=
  match if r.parallel && cases.length > 1 then schedule else none with
  | some moves =>
    let pool := (r.pool bench call cases h).after moves
    pool.values?.map fun results => (.ok (.ofResults results), pool.host)
  | none => some ((r.runCases bench cases).outcome h)

/-- Find the cases of a source tree, and run them. -/
def runOn (r : Runner) (bench : Workbench) (call : CompileRequest → Job CompileError Bool)
    (schedule : Option (List PoolMove)) (scanRoot : Path) (h : Host) :
    Option (Except DiscoveryError Summary × Host) :=
  match (Discovery.cases bench scanRoot).outcome h with
  | (.error e, h) => some (.error e, h)
  | (.ok cases, h) => r.runCasesOn bench call schedule cases h

end Runner

end ProcessorBench
