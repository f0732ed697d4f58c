import ProcessorBench.Compilation.Host
import ProcessorBench.Compilation.UnitName

/-!
# Workspaces

A workspace is a new directory for one compilation, with a directory in it for each kind of file. It is
removed when the compilation is over. Where the directory comes from, and how it is removed, is up to
`TemporaryDirs`.
-/

namespace ProcessorBench

/-- A directory for one compilation. -/
structure Workspace where
  root : Path
deriving DecidableEq, Repr

namespace Workspace

/-- Where the compiler puts classes. Nothing else is looked for there. -/
def classesDir (w : Workspace) : Path := w.root.join ⟨"classes"⟩

/-- Where sources are that were given as text. -/
def sourcesDir (w : Workspace) : Path := w.root.join ⟨"sources"⟩

/-- Where the processor puts sources. -/
def generatedDir (w : Workspace) : Path := w.root.join ⟨"generated"⟩

/-- Where the classes of the processor are. -/
def processorDir (w : Workspace) : Path := w.root.join ⟨"processor"⟩

/-- The directories of a workspace. -/
def dirs (w : Workspace) : List Path :=
  [w.classesDir, w.sourcesDir, w.generatedDir, w.processorDir]

/-- How many names there are for workspaces. -/
def nameCount : Nat := 1000000

/-- The names for workspaces, in the order in which they are tried. Each ends with six digits. -/
def nameOf (number : Nat) : String :=
  "diamond-" ++ String.ofList ((List.range 6).map fun place =>
    Nat.digitChar (number % nameCount / Nat.pow 10 (5 - place) % 10))

/-- The first name from a number on that is not taken, or the one after so many tries. -/
def firstFree (taken : String → Bool) : (tries : Nat) → (number : Nat) → String
  | 0, number => nameOf number
  | tries + 1, number =>
    if taken (nameOf number) then firstFree taken tries (number + 1) else nameOf number

/-- Where workspaces are created. -/
def parentOf (h : Host) : Path := h.disk.workingPath.join h.temporaryDir

/-- The workspace of a name. -/
def named (h : Host) (name : String) : Workspace := ⟨(parentOf h).join ⟨name⟩⟩

/-- Create the directories of a workspace. -/
def createDirs (w : Workspace) : HostStep CompileError Unit :=
  w.dirs.forM fun dir => HostStep.doing .create dir (Disk.createDir dir)

/-- Create the directory of a workspace. It is a fault if there is anything of the name already. -/
def reserveAs (name : String) : HostStep CompileError Workspace := do
  let host ← get
  let workspace := named host name
  HostStep.doing .create host.temporaryDir (Disk.createDir workspace.root)
  return workspace

end Workspace

/-- How directories for temporary files are made and removed. -/
structure TemporaryDirs where
  /-- Make a new directory, whose path is the result. -/
  make : HostStep FileFault Path
  /-- Remove a directory with all that is in it. -/
  remove : Path → HostStep FileFault Unit

namespace TemporaryDirs

/-- Create the directory of a workspace. -/
def reserve (t : TemporaryDirs) : HostStep CompileError Workspace := do
  let host ← get
  let root ← HostStep.adapt (fun _ => .io .create host.temporaryDir) t.make
  return ⟨root⟩

/-- Remove a workspace. -/
def close (t : TemporaryDirs) (w : Workspace) : HostStep CompileError Unit :=
  HostStep.adapt (fun _ => .io .delete w.root) (t.remove w.root)

/-- Create a workspace among the temporary files. One that cannot be completed is removed. -/
def create (t : TemporaryDirs) : HostStep CompileError Workspace := do
  let workspace ← t.reserve
  match ← HostStep.attempt workspace.createDirs with
  | .ok () => return workspace
  | .error fault =>
    let _ ← HostStep.attempt (t.close workspace)
    throw fault

/-- Directories with numbers in their names: the first one that is not there yet. It is a fault to remove one
that is not there any more. -/
def numbered : TemporaryDirs where
  make := do
    let host ← get
    let isTaken (name : String) : Bool := host.disk.exists? (Workspace.named host name).root
    let root := (Workspace.named host (Workspace.firstFree isTaken Workspace.nameCount 0)).root
    HostStep.onDisk id (Disk.createDir root)
    return root
  remove root := HostStep.onDisk id (Disk.removeDirAll root)

/-- Reserving a workspace gives the directory that is made, or reports that there is none. -/
theorem reserve_outcome (t : TemporaryDirs) (h : Host) :
    t.reserve.outcome h =
      match t.make.outcome h with
      | (.ok root, h') => (.ok ⟨root⟩, h')
      | (.error _, h') => (.error (.io .create h.temporaryDir), h') := by
  rw [reserve, HostStep.outcome_bind, HostStep.outcome_get]
  simp only
  rw [HostStep.outcome_bind, HostStep.outcome_adapt]
  rcases t.make.outcome h with ⟨_ | _, _⟩ <;> rfl

end TemporaryDirs

namespace Workspace

/-- Create the directory of a workspace under a name that nothing has, if there is one. -/
def reserve : HostStep CompileError Workspace := TemporaryDirs.numbered.reserve

/-- Remove a workspace. It is a fault if it is not there any more. -/
def close (w : Workspace) : HostStep CompileError Unit := TemporaryDirs.numbered.close w

/-- Create a workspace among the temporary files. One that cannot be completed is removed. -/
def create : HostStep CompileError Workspace := TemporaryDirs.numbered.create

theorem reserveAs_outcome (name : String) (h : Host) :
    (reserveAs name).outcome h =
      match Disk.createDir (named h name).root h.disk with
      | .ok () disk => (.ok (named h name), { h with disk })
      | .error _ disk => (.error (.io .create h.temporaryDir), { h with disk }) := by
  have step : (reserveAs name).outcome h =
      (HostStep.doing .create h.temporaryDir (Disk.createDir (named h name).root) >>= fun _ =>
        pure (named h name)).outcome h := rfl
  rw [step, HostStep.outcome_bind, HostStep.outcome_doing]
  cases Disk.createDir (named h name).root h.disk <;> rfl

theorem make_outcome (h : Host) : TemporaryDirs.numbered.make.outcome h =
    match firstFree (fun name => h.disk.exists? (named h name).root) nameCount 0 with
    | name => match Disk.createDir (named h name).root h.disk with
      | .ok () disk => (.ok (named h name).root, { h with disk })
      | .error fault disk => (.error fault, { h with disk }) := by
  rw [TemporaryDirs.numbered, HostStep.outcome_bind, HostStep.outcome_get]
  simp only
  generalize firstFree _ nameCount 0 = name
  rw [HostStep.outcome_bind, HostStep.outcome_onDisk]
  cases Disk.createDir (named h name).root h.disk <;> rfl

/-- A workspace is reserved under the first name that nothing has. -/
theorem reserve_steps : reserve = (do
    let host ← get
    reserveAs (firstFree (fun name => host.disk.exists? (named host name).root) nameCount 0)) := by
  apply HostStep.ext_outcome
  intro h
  rw [reserve, TemporaryDirs.reserve_outcome, make_outcome, HostStep.outcome_bind, HostStep.outcome_get]
  simp only
  generalize firstFree _ nameCount 0 = name
  rw [reserveAs_outcome]
  cases Disk.createDir (named h name).root h.disk <;> rfl

theorem close_eq (w : Workspace) :
    w.close = HostStep.doing .delete w.root (Disk.removeDirAll w.root) :=
  HostStep.adapt_onDisk _ id _

theorem create_eq : create = (do
    let workspace ← reserve
    match ← HostStep.attempt workspace.createDirs with
    | .ok () => return workspace
    | .error fault =>
      let _ ← HostStep.attempt workspace.close
      throw fault) := rfl

/-- Write a file, and the directories that it needs. -/
def writeFile (path : Path) (content : Bytes) : HostStep CompileError Unit := do
  if let some parent := path.parent? then
    HostStep.doing .create parent (Disk.createDirAll parent)
  HostStep.doing .write path (Disk.write path content)

/-- Write the source of a unit to the place that belongs to its name, which is the result. -/
def writeSource (w : Workspace) (unit source : String) : HostStep CompileError Path := do
  match UnitName.path? unit "java" with
  | none => throw (.invalidUnitName unit)
  | some place =>
    let path := w.sourcesDir.join place
    writeFile path (Utf8.encode source)
    return path

end Workspace

end ProcessorBench
