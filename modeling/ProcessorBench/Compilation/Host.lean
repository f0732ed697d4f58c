import ProcessorBench.Compilation.Error
import ProcessorBench.FileTree.Disk

/-!
# Hosts

A `Host` is what a compilation works with: a disk, the environment, the requests made to the compiler so far,
and the lines written for the user to see. Compilations are steps of `HostStep`, which leave what they have
done even when they fail.
-/

namespace ProcessorBench

/-- A processor that is attached to a compilation. -/
structure AttachedProcessor where
  /-- The binary name of its class. -/
  className : String
  /-- The directory with its classes. -/
  path : Path
deriving DecidableEq, Repr

/-- What a compiler is asked for. -/
structure CompileRequest where
  sourceFile : Path
  classPath : List Path
  /-- Where classes go. -/
  outputDir : Path
  /-- Where sources go that the processor makes. -/
  generatedDir : Path
  /-- Without a processor, no annotations are processed. -/
  processor : Option AttachedProcessor
deriving DecidableEq, Repr

/-- A request, and the disk as it was when the compiler was asked. -/
structure CompilerCall where
  request : CompileRequest
  disk : Disk

/-- What a compilation works with. -/
structure Host where
  disk : Disk
  environment : List (String × String)
  /-- The requests made so far, the last one first. -/
  calls : List CompilerCall := []
  /-- The lines written for the user, the last one first. -/
  notes : List String := []

/-- A step on a host, which may fail. What it has done before it fails remains. -/
abbrev HostStep (ε : Type) := EStateM ε Host

namespace Host

/-- The value of a variable of the environment. -/
def valueOf? (h : Host) (name : String) : Option String := h.environment.lookup name

/-- The directory for temporary files. -/
def temporaryDir (h : Host) : Path := ⟨(h.valueOf? "TMPDIR").getD "/tmp"⟩

end Host

namespace HostStep

/-- The disk as it is. -/
def disk {ε : Type} : HostStep ε Disk := return (← get).disk

/-- Carry out a step on the disk. -/
def onDisk {ε α : Type} (fault : FileFault → ε) (step : DiskStep α) : HostStep ε α := fun h =>
  match step h.disk with
  | .ok a disk => .ok a { h with disk }
  | .error e disk => .error (fault e) { h with disk }

/-- Carry out a step on the disk for an action on a path, which is reported if it fails. -/
def doing {α : Type} (action : FileAction) (path : Path) (step : DiskStep α) :
    HostStep CompileError α :=
  onDisk (fun _ => .io action path) step

/-- Carry out a step, and go on with its failure as with its result. -/
def attempt {ε ε' α : Type} (step : HostStep ε α) : HostStep ε' (Except ε α) := fun h =>
  match step h with
  | .ok a h => .ok (.ok a) h
  | .error e h => .ok (.error e) h

/-- A result that depends on no host. -/
def ofExcept {ε α : Type} : Except ε α → HostStep ε α
  | .ok a => return a
  | .error e => throw e

/-- Carry out a step whose failures are causes of other failures. -/
def adapt {ε ε' α : Type} (wrap : ε → ε') (step : HostStep ε α) : HostStep ε' α := fun h =>
  match step h with
  | .ok a h => .ok a h
  | .error e h => .error (wrap e) h

/-- What a step gives, and the host after it. -/
def outcome {ε α : Type} (step : HostStep ε α) (h : Host) : Except ε α × Host :=
  match step h with
  | .ok a h => (.ok a, h)
  | .error e h => (.error e, h)

/-- Write a line for the user. -/
def note {ε : Type} (line : String) : HostStep ε Unit :=
  modify fun h => { h with notes := line :: h.notes }

section
variable {ε ε' α β : Type}

/-- Steps with the same outcomes are the same. -/
theorem ext_outcome {x y : HostStep ε α} (same : ∀ h, x.outcome h = y.outcome h) : x = y := by
  funext h
  have here := same h
  unfold outcome at here
  cases hx : x h <;> cases hy : y h <;> rw [hx, hy] at here <;> cases here <;> rfl

theorem outcome_bind (x : HostStep ε α) (k : α → HostStep ε β) (h : Host) :
    outcome (x >>= k) h = match x.outcome h with
      | (.ok a, h') => (k a).outcome h'
      | (.error e, h') => (.error e, h') := by
  show outcome (EStateM.bind x k) h = _
  unfold outcome EStateM.bind
  cases x h <;> rfl

/-- What a step gives, it gives together with a host. -/
theorem exists_outcome {x : HostStep ε α} {h : Host} {r : Except ε α} (given : (x.outcome h).1 = r) :
    ∃ h', x.outcome h = (r, h') := ⟨(x.outcome h).2, Prod.ext given rfl⟩

theorem outcome_bind_eq_ok {x : HostStep ε α} {k : α → HostStep ε β} {h h' : Host} {b : β} :
    (x >>= k).outcome h = (.ok b, h') ↔
      ∃ a middle, x.outcome h = (.ok a, middle) ∧ (k a).outcome middle = (.ok b, h') := by
  rw [outcome_bind]
  rcases x.outcome h with ⟨_ | a, middle⟩ <;> simp [and_assoc]

theorem outcome_bind_eq_error {x : HostStep ε α} {k : α → HostStep ε β} {h h' : Host} {e : ε} :
    (x >>= k).outcome h = (.error e, h') ↔ x.outcome h = (.error e, h') ∨
      ∃ a middle, x.outcome h = (.ok a, middle) ∧ (k a).outcome middle = (.error e, h') := by
  rw [outcome_bind]
  rcases x.outcome h with ⟨_ | a, middle⟩ <;> simp [and_assoc]

theorem outcome_pure (a : α) (h : Host) : outcome (pure a : HostStep ε α) h = (.ok a, h) := rfl

theorem outcome_get (h : Host) : outcome (get : HostStep ε Host) h = (.ok h, h) := rfl

theorem outcome_throw (e : ε) (h : Host) : outcome (throw e : HostStep ε α) h = (.error e, h) := rfl

theorem outcome_ofExcept (result : Except ε α) (h : Host) : (ofExcept result).outcome h = (result, h) := by
  cases result <;> rfl

theorem outcome_attempt (x : HostStep ε α) (h : Host) :
    outcome (attempt x : HostStep ε' (Except ε α)) h = (.ok (x.outcome h).1, (x.outcome h).2) := by
  unfold outcome attempt
  cases x h <;> rfl

/-- Going on after a step that may fail. -/
theorem outcome_attempt_bind (x : HostStep ε α) (k : Except ε α → HostStep ε' β) (h : Host) :
    outcome (attempt x >>= k) h = (k (x.outcome h).1).outcome (x.outcome h).2 := by
  rw [outcome_bind, outcome_attempt]

theorem outcome_onDisk (fault : FileFault → ε) (step : DiskStep α) (h : Host) :
    (onDisk fault step).outcome h =
      match step h.disk with
      | .ok a disk => (.ok a, { h with disk })
      | .error e disk => (.error (fault e), { h with disk }) := by
  unfold outcome onDisk
  cases step h.disk <;> rfl

theorem outcome_doing (action : FileAction) (path : Path) (step : DiskStep α) (h : Host) :
    (doing action path step).outcome h =
      match step h.disk with
      | .ok a disk => (.ok a, { h with disk })
      | .error _ disk => (.error (.io action path), { h with disk }) := outcome_onDisk _ step h

theorem adapt_onDisk (wrap : ε → ε') (fault : FileFault → ε) (step : DiskStep α) :
    adapt wrap (onDisk fault step) = onDisk (fun e => wrap (fault e)) step := by
  funext h
  unfold adapt onDisk
  cases step h.disk <;> rfl

theorem outcome_adapt (wrap : ε → ε') (x : HostStep ε α) (h : Host) :
    (adapt wrap x).outcome h = ((x.outcome h).1.mapError wrap, (x.outcome h).2) := by
  unfold outcome adapt
  cases x h <;> rfl

end

end HostStep

/-- A compiler: whether it accepts the source that it is asked to compile. It fails only if it cannot be run
at all. -/
abbrev Compiler := CompileRequest → HostStep CompileError Bool

/-- Ask a compiler, and keep the request. -/
def Compiler.call (compiler : Compiler) (request : CompileRequest) : HostStep CompileError Bool := do
  modify fun h => { h with calls := ⟨request, h.disk⟩ :: h.calls }
  compiler request

end ProcessorBench
