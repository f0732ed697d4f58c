import ProcessorBench.Compilation.RuleCompiler
import ProcessorBench.Proofs.Files

/-!
# Steps that keep a disk in order

A step is tidy if it leaves a well-formed tree on a disk that has one, whether the step fails or not. What is put
on a disk is put under names (`Disk.isName_of_locate`), so each operation on files is tidy, and so is each walk of
such operations. A compilation is as tidy as its compiler (`Workbench.tidy_compile`), and compilers that go by rules are
tidy whatever their rules are.
-/

namespace ProcessorBench

namespace Path

/-- A segment that a path goes down along is a name. -/
theorem isName_of_ofSegment? {segment name : String} (whole : '/' ∉ segment.toList)
    (down : Component.ofSegment? segment = some (.normal name)) : isName segment = true := by
  unfold Component.ofSegment? at down
  simp only [Bool.or_eq_true, decide_eq_true_eq] at down
  split at down
  · cases down
  next apart =>
    obtain ⟨nonempty, apart⟩ := not_or.mp apart
    split at down
    · cases down
    next apart' => exact isName_iff.mpr ⟨nonempty, apart, apart', whole⟩

/-- A segment is idle, leads upwards, or is a name. -/
theorem ofSegment?_cases (segment : String) : Component.ofSegment? segment = none ∨
    Component.ofSegment? segment = some .parent ∨
      Component.ofSegment? segment = some (.normal segment) := by
  unfold Component.ofSegment?
  split
  · exact .inl rfl
  · split
    · exact .inr (.inl rfl)
    · exact .inr (.inr rfl)

/-- Segments have no slash in them. -/
theorem not_mem_of_mem_segments {p : Path} {segment : String} (mem : segment ∈ p.segments) :
    '/' ∉ segment.toList := Text.not_mem_of_mem_splitOn mem

/-- Every path has a segment. -/
theorem segments_ne_nil (p : Path) : p.segments ≠ [] := by
  simpa [segments, Text.splitOn] using Text.parts_ne_nil (· = '/') p.text.toList

end Path

/-! ## Operations on a disk -/

namespace Disk

variable {d : Disk} {t : FileTree} {p : Path} {here l : Location} {segments : List String} {α : Type}

/-- Where a path leads that goes on from a directory is a way along names. -/
theorem isName_of_follow (wf : t.WellFormed) (whole : ∀ s ∈ segments, '/' ∉ s.toList)
    (nonempty : segments ≠ []) (leads : follow t here segments = .ok l) :
    ∀ n ∈ l, Path.isName n = true := by
  induction segments generalizing here with
  | nil => exact absurd rfl nonempty
  | cons segment rest ih =>
    obtain ⟨noSlash, whole⟩ := List.forall_mem_cons.mp whole
    obtain ⟨⟨entries, found⟩, _, leads⟩ := follow_cons_eq_ok leads
    cases rest with
    | cons next rest => exact ih whole (List.cons_ne_nil _ _) leads
    | nil =>
      cases leads
      have above := FileTree.isName_of_at? wf found
      rcases Path.ofSegment?_cases segment with idle | up | down
      · rw [turn, idle]
        exact above
      · rw [turn, up]
        exact fun n mem => above n (List.dropLast_subset here mem)
      · have named := Path.isName_of_ofSegment? noSlash down
        rw [turn_name named]
        exact List.forall_mem_append.mpr ⟨above, by simpa using named⟩

/-- **Where a path leads** is a way along names. -/
theorem isName_of_locate (wf : d.tree.WellFormed) (located : d.locate p = .ok l) :
    ∀ n ∈ l, Path.isName n = true := by
  obtain ⟨_, _, leads⟩ := bind_eq_ok.mp located
  exact isName_of_follow wf (fun _ => Path.not_mem_of_mem_segments) p.segments_ne_nil leads

end Disk

/-- A step that leaves a well-formed tree on a disk that has one. -/
def DiskStep.Tidy {α : Type} (step : DiskStep α) : Prop :=
  ∀ d : Disk, d.tree.WellFormed → (Disk.after step d).tree.WellFormed

namespace DiskStep

variable {α β : Type} {x : DiskStep α} {k : α → DiskStep β}

theorem tidy_pure (a : α) : Tidy (pure a : DiskStep α) := fun _ wf => wf

theorem tidy_throw (fault : FileFault) : Tidy (throw fault : DiskStep α) := fun _ wf => wf

theorem tidy_get : Tidy (get : DiskStep Disk) := fun _ wf => wf

/-- Steps that leave a disk in order can be put together. -/
theorem Tidy.bind (first : x.Tidy) (next : ∀ a, (k a).Tidy) : (x >>= k).Tidy := by
  intro d wf
  have left := first d wf
  show (Disk.after (EStateM.bind x k) d).tree.WellFormed
  unfold Disk.after EStateM.bind at *
  cases run : x d with
  | ok a d' =>
    rw [run] at left
    exact next a d' left
  | error fault d' =>
    rw [run] at left
    exact left

end DiskStep

namespace Disk

variable {l : Location} {segments : List String} {α : Type}

/-- Putting a tree in a place that has a name leaves it in order. -/
theorem tidy_putAt {x : Option FileTree} (named : ∀ n ∈ l, Path.isName n = true)
    (wf' : ∀ u, x = some u → u.WellFormed) : (putAt l x).Tidy := by
  intro d wf
  show (d.tree.put x l).WellFormed
  rcases List.eq_nil_or_concat' l with rfl | ⟨here, name, rfl⟩
  · -- Nothing is put in the place of the whole tree.
    have whole : d.tree.put x [] = d.tree := by cases d.tree <;> rfl
    rwa [whole]
  · exact wf.put (named name (List.mem_append_right _ List.mem_cons_self)) wf' here

/-- What goes on from where a path leads goes on from a way along names. -/
theorem tidy_locating_bind (p : Path) {k : Location → DiskStep α}
    (next : ∀ l, (∀ n ∈ l, Path.isName n = true) → (k l).Tidy) : (locating p >>= k).Tidy := by
  intro d wf
  unfold after
  rw [locating_bind]
  cases located : d.locate p with
  | error fault => exact wf
  | ok l => exact next l (isName_of_locate wf located) d wf

/-- Writing a file leaves a disk in order. -/
theorem tidy_write (p : Path) (content : Bytes) : (write p content).Tidy := by
  refine tidy_locating_bind p fun l named => DiskStep.tidy_get.bind fun d => ?_
  rcases d.tree.at? l with _ | (⟨_, executable⟩ | _)
  · exact tidy_putAt named (FileTree.wellFormed_some (FileTree.wellFormed_file content false))
  · exact tidy_putAt named (FileTree.wellFormed_some (FileTree.wellFormed_file content executable))
  · exact DiskStep.tidy_throw _

/-- Making a directory leaves a disk in order. -/
theorem tidy_createDir (p : Path) : (createDir p).Tidy := by
  refine tidy_locating_bind p fun l named => DiskStep.tidy_get.bind fun d => ?_
  cases d.tree.at? l with
  | none => exact tidy_putAt named (FileTree.wellFormed_some FileTree.wellFormed_empty)
  | some _ => exact DiskStep.tidy_throw _

/-- Removing a directory leaves a disk in order. -/
theorem tidy_removeDirAll (p : Path) : (removeDirAll p).Tidy := by
  refine tidy_locating_bind p fun l named => DiskStep.tidy_get.bind fun d => ?_
  rcases d.tree.at? l with _ | (_ | _)
  · exact DiskStep.tidy_throw _
  · exact DiskStep.tidy_throw _
  · exact tidy_putAt named fun _ same => by cases same

/-- Making directories on a way leaves a disk in order. -/
theorem tidy_createFrom (whole : ∀ s ∈ segments, '/' ∉ s.toList) (here : Location) :
    (createFrom here segments).Tidy := by
  induction segments generalizing here with
  | nil => exact DiskStep.tidy_pure ()
  | cons segment rest ih =>
    obtain ⟨first, whole⟩ := List.forall_mem_cons.mp whole
    rcases Path.ofSegment?_cases segment with idle | up | down
    · rw [createFrom, idle]
      exact ih whole here
    · rw [createFrom, up]
      exact ih whole here.dropLast
    · have named := Path.isName_of_ofSegment? first down
      intro d wf
      unfold after
      rw [createFrom_cons_name named]
      by_cases long : segment.utf8ByteSize > nameLimit
      · rw [if_pos long]
        exact wf
      · rw [if_neg long]
        rcases d.tree.at? (here ++ [segment]) with _ | (_ | _)
        · exact ih whole _ _ (wf.put named (FileTree.wellFormed_some FileTree.wellFormed_empty) here)
        · exact wf
        · exact ih whole _ d wf

/-- Making a directory with those above it leaves a disk in order. -/
theorem tidy_createDirAll (p : Path) : (createDirAll p).Tidy := by
  intro d wf
  unfold after
  by_cases empty : p.text = ""
  · rw [createDirAll, if_pos empty]
    exact wf
  · rw [createDirAll_run empty]
    cases checkPath p with
    | error fault => exact wf
    | ok => exact tidy_createFrom (fun _ => Path.not_mem_of_mem_segments) _ d wf

end Disk

/-! ## Steps on a host -/

/-- A step that leaves a well-formed tree on the disk of a host that has one. -/
def HostStep.Tidy {ε α : Type} (step : HostStep ε α) : Prop :=
  ∀ h : Host, h.disk.tree.WellFormed → (step.outcome h).2.disk.tree.WellFormed

namespace HostStep

variable {ε ε' α β : Type} {x : HostStep ε α} {k : α → HostStep ε β}

/-- After a step that leaves the disk in order it is in order. -/
theorem Tidy.of_outcome (tidy : x.Tidy) {h h' : Host} {r : Except ε α} (wf : h.disk.tree.WellFormed)
    (run : x.outcome h = (r, h')) : h'.disk.tree.WellFormed := by
  have left := tidy h wf
  rwa [run] at left

theorem tidy_pure (a : α) : Tidy (pure a : HostStep ε α) := fun _ wf => wf

theorem tidy_throw (e : ε) : Tidy (throw e : HostStep ε α) := fun _ wf => wf

theorem tidy_ofExcept (result : Except ε α) : (ofExcept result).Tidy := by
  intro h wf
  rwa [outcome_ofExcept]

theorem tidy_get : Tidy (get : HostStep ε Host) := fun _ wf => wf

/-- Steps on a host that leave its disk in order can be put together. -/
theorem Tidy.bind (first : x.Tidy) (next : ∀ a, (k a).Tidy) : (x >>= k).Tidy := by
  intro h wf
  have left := first h wf
  rw [outcome_bind]
  generalize x.outcome h = outcome at left ⊢
  obtain ⟨_ | a, h'⟩ := outcome
  · exact left
  · exact next a h' left

theorem tidy_disk : (disk : HostStep ε Disk).Tidy := tidy_get.bind fun _ => tidy_pure _

/-- Going on after a fault leaves it in order. -/
theorem Tidy.attempt (tidy : x.Tidy) : (attempt x : HostStep ε' (Except ε α)).Tidy := by
  intro h wf
  rw [outcome_attempt]
  exact tidy h wf

/-- Repeating a step that leaves the disk in order does so. -/
theorem Tidy.forM {as : List β} {f : β → HostStep ε PUnit} (each : ∀ a ∈ as, (f a).Tidy) :
    (as.forM f).Tidy := by
  induction as with
  | nil => exact tidy_pure _
  | cons a as ih =>
    obtain ⟨first, each⟩ := List.forall_mem_cons.mp each
    exact first.bind fun _ => ih each

/-- A step on the disk that leaves it in order does so on the host. -/
theorem tidy_onDisk (fault : FileFault → ε) {step : DiskStep α} (tidy : step.Tidy) :
    (onDisk fault step).Tidy := by
  intro h wf
  have left := tidy h.disk wf
  rw [outcome_onDisk]
  unfold Disk.after at left
  cases run : step h.disk <;> rw [run] at left <;> exact left

end HostStep

/-! ## Compilers -/

/-- A compiler that leaves a well-formed tree, whatever it is asked for. -/
def Compiler.Tidy (compiler : Compiler) : Prop := ∀ request, HostStep.Tidy (compiler request)

/-- Calling a compiler that leaves the disk in order does so. -/
theorem Compiler.Tidy.call {compiler : Compiler} (tidy : compiler.Tidy) (request : CompileRequest) :
    (compiler.call request).Tidy :=
  fun h wf => tidy request { h with calls := ⟨request, h.disk⟩ :: h.calls } wf

namespace RuleCompiler

/-- Writing an output of a rule leaves the disk in order. -/
theorem tidy_writeOutput {ε : Type} (dir : Path) (output : Path × Option Bytes) :
    (writeOutput dir output : HostStep ε Unit).Tidy := by
  obtain ⟨place, content⟩ := output
  refine (HostStep.tidy_onDisk id ?_).attempt.bind fun _ => HostStep.tidy_pure ()
  cases content with
  | none => exact Disk.tidy_createDirAll _
  | some bytes =>
    simp only
    cases (dir.join place).parent? with
    | none => exact (DiskStep.tidy_pure _).bind fun _ => Disk.tidy_write _ bytes
    | some parent => exact (Disk.tidy_createDirAll parent).bind fun _ => Disk.tidy_write _ bytes

/-- Following a rule leaves the disk in order. -/
theorem tidy_follow (request : CompileRequest) (rule : CompileRule) : (follow request rule).Tidy := by
  obtain ⟨source, processor, removes, failure, outputs, accepts⟩ := rule
  have writes : (outputs.forM (writeOutput request.outputDir) >>= fun _ =>
      pure accepts : HostStep CompileError Bool).Tidy :=
    (HostStep.Tidy.forM fun output _ => tidy_writeOutput _ output).bind fun _ => HostStep.tidy_pure _
  have answers : (follow request ⟨source, processor, false, failure, outputs, accepts⟩).Tidy := by
    cases failure with
    | none => exact writes
    | some reason => exact (HostStep.tidy_throw _).bind fun _ => writes
  cases removes with
  | false => exact answers
  | true =>
    unfold follow at answers ⊢
    simp only [if_true]
    cases request.outputDir.parent? with
    | none => exact answers
    | some workspace =>
      exact (HostStep.tidy_onDisk id (Disk.tidy_removeDirAll workspace)).attempt.bind fun _ => answers

/-- **Compilers that go by rules** are tidy. -/
theorem tidy_ofRules (rules : List CompileRule) : (ofRules rules).Tidy := by
  intro request
  refine HostStep.tidy_disk.bind fun disk => ?_
  simp only
  cases rules.find? (isFor request (disk.readText? request.sourceFile)) with
  | none => exact HostStep.tidy_pure false
  | some rule => exact tidy_follow request rule

end RuleCompiler

/-! ## Compilations -/

namespace Workspace

/-- Making the directories of a workspace leaves the disk in order. -/
theorem tidy_createDirs (w : Workspace) : w.createDirs.Tidy :=
  HostStep.Tidy.forM fun dir _ => HostStep.tidy_onDisk _ (Disk.tidy_createDir dir)

/-- Removing a workspace leaves the disk in order. -/
theorem tidy_close (w : Workspace) : w.close.Tidy := by
  rw [close_eq]
  exact HostStep.tidy_onDisk _ (Disk.tidy_removeDirAll w.root)

/-- Reserving a workspace leaves the disk in order. -/
theorem tidy_reserve : reserve.Tidy := by
  rw [reserve_steps]
  exact HostStep.tidy_get.bind fun _ => HostStep.tidy_get.bind fun _ =>
    (HostStep.tidy_onDisk _ (Disk.tidy_createDir _)).bind fun _ => HostStep.tidy_pure _

/-- Creating a workspace leaves the disk in order. -/
theorem tidy_create : create.Tidy := by
  rw [create_eq]
  refine tidy_reserve.bind fun w => w.tidy_createDirs.attempt.bind fun made => ?_
  cases made with
  | ok => exact HostStep.tidy_pure w
  | error fault => exact w.tidy_close.attempt.bind fun _ => HostStep.tidy_throw fault

theorem tidy_writeFile (path : Path) (content : Bytes) : (writeFile path content).Tidy := by
  have written := HostStep.tidy_onDisk (fun _ => CompileError.io .write path)
    (Disk.tidy_write path content)
  unfold writeFile
  cases path.parent? with
  | none => exact written
  | some parent =>
    exact (HostStep.tidy_onDisk _ (Disk.tidy_createDirAll parent)).bind fun _ => written

/-- Writing a source into a workspace leaves the disk in order. -/
theorem tidy_writeSource (w : Workspace) (unit source : String) : (w.writeSource unit source).Tidy := by
  unfold writeSource
  cases UnitName.path? unit "java" with
  | none => exact HostStep.tidy_throw _
  | some place => exact (tidy_writeFile _ _).bind fun _ => HostStep.tidy_pure _

end Workspace

/-- Writing artifacts leaves the disk in order. -/
theorem ArtifactSet.tidy_writeTo (s : ArtifactSet) (dir : Path) : (s.writeTo dir).Tidy :=
  HostStep.Tidy.forM fun _ _ => Workspace.tidy_writeFile _ _

namespace Workbench

variable {b : Workbench}

/-- All that is prepared for a compilation leaves the disk in order. -/
theorem tidy_prepare (b : Workbench) (w : Workspace) (unit : String) (place : Path)
    (source : Option String) (processor : Option Processor) :
    (b.prepare w unit place source processor).Tidy := by
  cases processor with
  | none =>
    cases source with
    | none => exact HostStep.tidy_pure _
    | some text => exact (w.tidy_writeSource unit text).bind fun _ => HostStep.tidy_pure _
  | some p =>
    have provided (file : Path) : (p.artifacts.writeTo w.processorDir >>= fun _ => pure file).Tidy :=
      (p.artifacts.tidy_writeTo _).bind fun _ => HostStep.tidy_pure file
    cases source with
    | none => exact provided _
    | some text => exact (w.tidy_writeSource unit text).bind provided

/-- A compilation in a workspace leaves the disk in order, if the compiler does. -/
theorem tidy_compileIn (tidy : b.compiler.Tidy) (w : Workspace) (unit : String) (place : Path)
    (source : Option String) (processor : Option Processor) :
    (b.compileIn w unit place source processor).Tidy :=
  (b.tidy_prepare w unit place source processor).bind fun _ => (tidy.call _).bind fun _ =>
    HostStep.tidy_disk.bind fun _ => HostStep.tidy_ofExcept _

/-- The end of a compilation leaves the disk in order. -/
theorem tidy_settle {α : Type} (w : Workspace) (result : Except CompileError α) :
    (settle w result).Tidy := by
  rw [settle_eq]
  refine w.tidy_close.attempt.bind fun closed => ?_
  cases closed with
  | ok => exact HostStep.tidy_ofExcept result
  | error fault => cases result <;> exact HostStep.tidy_throw _

/-- **A compilation** is tidy if its compiler is. -/
theorem tidy_compile (tidy : b.compiler.Tidy) (unit : String) (source : Option String)
    (processor : Option Processor) : (b.compile unit source processor).Tidy := by
  rw [compile_eq]
  cases UnitName.path? unit "java" with
  | none => exact HostStep.tidy_throw _
  | some place =>
    exact Workspace.tidy_create.bind fun w =>
      (tidy_compileIn tidy w unit place source processor).attempt.bind fun result => tidy_settle w result

end Workbench

end ProcessorBench
