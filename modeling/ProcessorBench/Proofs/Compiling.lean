import ProcessorBench.Compilation.RuleCompiler
import ProcessorBench.Proofs.Workspaces

/-!
# Compilations and what they leave

Compiling a unit takes place in a new workspace. It stops before the compiler is asked, or asks it once when the
directories for its output are empty (`Workbench.compile_course`). Whatever the compiler does then, the workspace is
removed in the end, or the compilation fails, with the fault that came first.
-/

namespace ProcessorBench

/-! ## Before the compiler is asked -/

/-- What is in a workspace before the compiler is asked: nothing where it puts something. -/
structure FileTree.Ready (t : FileTree) : Prop where
  classes : t.at? ["classes"] = some (.dir [])
  generated : t.at? ["generated"] = some (.dir [])
  sources : ∃ entries, t.at? ["sources"] = some (.dir entries)
  processor : ∃ entries, t.at? ["processor"] = some (.dir entries)

namespace FileTree

variable {t v : FileTree} {name other : String}

/-- A workspace that nothing has been put into is ready. -/
theorem ready_emptyTree : Workspace.emptyTree.Ready :=
  ⟨rfl, rfl, ⟨[], rfl⟩, ⟨[], rfl⟩⟩

/-- What is put under a name is found there. -/
theorem at?_put_name (isDir : t.isDir = true) (v : FileTree) (name : String) :
    (t.put (some v) [name]).at? [name] = some v := by
  obtain ⟨entries, rfl⟩ := isDir_iff.mp isDir
  exact at?_put_self (at?_nil (.dir entries)) (some v) name

/-- What is under other names stays there. -/
theorem at?_put_other (apart : name ≠ other) (v : FileTree) :
    (t.put (some v) [name]).at? [other] = t.at? [other] := by
  apply at?_put_of_apart
  · intro above
    exact apart (List.cons_prefix_cons.mp above).1
  · intro below
    exact apart (List.cons_prefix_cons.mp below).1.symm

/-- Something else in the directory for sources. -/
theorem Ready.put_sources (ready : t.Ready) (isDir : t.isDir = true) (isDir' : v.isDir = true) :
    (t.put (some v) ["sources"]).Ready := by
  obtain ⟨entries, rfl⟩ := isDir_iff.mp isDir'
  refine ⟨?_, ?_, ⟨entries, at?_put_name isDir _ _⟩, ?_⟩
  · rw [at?_put_other (by decide)]
    exact ready.classes
  · rw [at?_put_other (by decide)]
    exact ready.generated
  · rw [at?_put_other (by decide)]
    exact ready.processor

/-- Something else in the directory for the processor. -/
theorem Ready.put_processor (ready : t.Ready) (isDir : t.isDir = true) (isDir' : v.isDir = true) :
    (t.put (some v) ["processor"]).Ready := by
  obtain ⟨entries, rfl⟩ := isDir_iff.mp isDir'
  refine ⟨?_, ?_, ?_, ⟨entries, at?_put_name isDir _ _⟩⟩
  · rw [at?_put_other (by decide)]
    exact ready.classes
  · rw [at?_put_other (by decide)]
    exact ready.generated
  · rw [at?_put_other (by decide)]
    exact ready.sources

end FileTree

namespace Site

variable {s : Site} {h : Host} {t : FileTree}

/-- Providing a source changes the workspace only, which stays ready. -/
theorem Holds.provideSource (holds : s.Holds h.disk t) (ready : t.Ready)
    (possible : ∀ name ∈ Workspace.dirNames, Disk.checkPath (s.root.join ⟨name⟩) = .ok ())
    (b : Workbench) (unit : String) (place : Path) (source : Option String) :
    ∃ u : FileTree, u.Ready ∧ s.Holds (h.disk.put (some u) s.location) u ∧
      ((Job.provideSource b s.workspace unit place source).run.outcome h).2 =
        { h with disk := h.disk.put (some u) s.location } := by
  cases source with
  | none =>
    refine ⟨t, ready, ?_, ?_⟩
    · rw [holds.put_self]
      exact holds
    · rw [holds.put_self]
      rfl
  | some text =>
    obtain ⟨entries, has⟩ := ready.sources
    let inner := s.inner "sources" (by decide) (possible "sources" (by decide)) (by decide)
    have follow : inner.Follow inner s.workspace.sourcesDir s.workspace.sourcesDir :=
      ⟨[], nofun, rfl, rfl⟩
    have alike := Job.alike_writeSource (Twin.refl inner) (fun _ => False) follow unit text
    obtain ⟨v, isDir, holds', left⟩ := holds.inner_run has alike
    exact ⟨_, ready.put_sources holds.isDir isDir, holds', left⟩

/-- Providing a processor changes the workspace only, which stays ready. -/
theorem Holds.provideProcessor (holds : s.Holds h.disk t) (ready : t.Ready)
    (possible : ∀ name ∈ Workspace.dirNames, Disk.checkPath (s.root.join ⟨name⟩) = .ok ())
    {processor : Option Processor} (plain : ∀ p ∈ processor, p.artifacts.IsPlain) :
    ∃ u : FileTree, u.Ready ∧ s.Holds (h.disk.put (some u) s.location) u ∧
      ((Job.provideProcessor s.workspace processor).run.outcome h).2 =
        { h with disk := h.disk.put (some u) s.location } := by
  cases processor with
  | none =>
    refine ⟨t, ready, ?_, ?_⟩
    · rw [holds.put_self]
      exact holds
    · rw [holds.put_self]
      rfl
  | some p =>
    obtain ⟨entries, has⟩ := ready.processor
    let inner := s.inner "processor" (by decide) (possible "processor" (by decide)) (by decide)
    have follow : inner.Follow inner s.workspace.processorDir s.workspace.processorDir :=
      ⟨[], nofun, rfl, rfl⟩
    have alike := Job.alike_writeTo (Twin.refl inner) (fun _ => False) follow (plain p rfl)
    obtain ⟨v, isDir, holds', left⟩ := holds.inner_run has alike
    exact ⟨_, ready.put_processor holds.isDir isDir, holds', left⟩

/-- The source of a unit is at its place, in the workspace or among the sources. -/
theorem provideSource_ok {b : Workbench} {w : Workspace} {unit : String} {place p : Path}
    {source : Option String} (found : UnitName.path? unit "java" = some place)
    (provided : ((Job.provideSource b w unit place source).run.outcome h).1 = .ok p) :
    p = if source.isSome then w.sourcesDir.join place else b.sourceRoot.join place := by
  cases source with
  | none =>
    cases provided
    rfl
  | some text =>
    rw [Job.provideSource, Job.writeSource, found] at provided
    simp only at provided
    rw [Job.run_bind, HostStep.outcome_bind] at provided
    generalize (Job.writeFile (w.sourcesDir.join place) (Utf8.encode text)).run.outcome h = written
      at provided
    obtain ⟨_ | _, h'⟩ := written
    · cases provided
    · cases provided
      rfl

/-- What is under a name in a site. -/
theorem Holds.lookup_name {d : Disk} {name : String} {x : FileTree} (holds : s.Holds d t)
    (named : Path.isName name = true) (possible : Disk.checkPath (s.root.join ⟨name⟩) = .ok ())
    (fits : name.utf8ByteSize ≤ Disk.nameLimit) (has : t.at? [name] = some x) :
    d.lookup (s.root.join ⟨name⟩) = .ok x := by
  obtain ⟨entries, rfl⟩ := FileTree.isDir_iff.mp holds.isDir
  have each : ∀ n ∈ [name], Path.isName n = true := by simpa using named
  have looked := holds.lookup each
  rw [Path.joinAll_singleton, reach, Path.joinAll_singleton, possible, ok_bind, Disk.follow_cons,
    Disk.advance_name named (FileTree.at?_nil _), if_neg (not_lt.mpr fits), has] at looked
  exact looked

/-- **What is prepared for a compiler** is in the workspace, and nothing where the compiler puts something. -/
theorem Holds.prepare (holds : s.Holds h.disk t) (ready : t.Ready)
    (possible : ∀ name ∈ Workspace.dirNames, Disk.checkPath (s.root.join ⟨name⟩) = .ok ())
    {processor : Option Processor} (plain : ∀ p ∈ processor, p.artifacts.IsPlain) (b : Workbench)
    {unit : String} {place : Path} (found : UnitName.path? unit "java" = some place)
    (source : Option String) :
    ∃ u : FileTree, u.Ready ∧ s.Holds (h.disk.put (some u) s.location) u ∧
      ∃ r, (b.prepare s.workspace unit place source processor).outcome h =
          (r, { h with disk := h.disk.put (some u) s.location }) ∧
        ∀ p, r = .ok p →
          p = if source.isSome then s.workspace.sourcesDir.join place else b.sourceRoot.join place := by
  obtain ⟨u, ready', holds', left⟩ := holds.provideSource ready possible b unit place source
  rw [← Job.run_prepare]
  have first : (Job.prepare b s.workspace unit place source processor).run =
      (Job.provideSource b s.workspace unit place source).run >>= fun sourceFile =>
        (Job.provideProcessor s.workspace processor >>= fun _ => pure sourceFile).run :=
    Job.run_bind _ _
  rw [first, HostStep.outcome_bind]
  have isPlace (p : Path) (provided :
      ((Job.provideSource b s.workspace unit place source).run.outcome h).1 = .ok p) :=
    provideSource_ok found provided
  -- Only what is known of the outcome matters from here on, not how it has come about.
  generalize (Job.provideSource b s.workspace unit place source).run.outcome h = outcome
    at left isPlace
  obtain ⟨r, h'⟩ := outcome
  simp only at left
  subst left
  cases r with
  | error e => exact ⟨u, ready', holds', .error e, rfl, nofun⟩
  | ok sourceFile =>
    obtain ⟨v, ready'', holds'', left'⟩ := Holds.provideProcessor
      (h := { h with disk := h.disk.put (some u) s.location }) holds' ready' possible plain
    simp only
    rw [Job.run_bind, HostStep.outcome_bind]
    generalize (Job.provideProcessor s.workspace processor).run.outcome _ = outcome at left' ⊢
    obtain ⟨r', h''⟩ := outcome
    simp only [Disk.put_put] at left' holds''
    subst left'
    cases r' with
    | error e => exact ⟨v, ready'', holds'', .error e, rfl, nofun⟩
    | ok =>
      refine ⟨v, ready'', holds'', .ok sourceFile, rfl, ?_⟩
      rintro _ ⟨⟩
      exact isPlace sourceFile rfl

end Site

/-! ## In a workspace -/

/-- What it means that a compilation stops before its compiler is asked: the workspace in which that is, what is in it
then, and what is wrong. -/
structure Interruption where
  workspace : Workspace
  /-- Where the workspace is. -/
  location : Location
  contents : FileTree
  fault : CompileError

namespace Interruption

/-- The host when a compilation stops: it differs from what it was in the workspace only. -/
def left (i : Interruption) (h : Host) : Host :=
  { h with disk := h.disk.put (some i.contents) i.location }

/-- A compilation on the given host stops, in a workspace that is new, for the fault of one of its own steps. -/
structure Of (i : Interruption) (b : Workbench) (unit : String) (place : Path) (source : Option String)
    (processor : Option Processor) (h : Host) : Prop where
  fresh : h.disk.tree.at? i.location = none
  leads : (i.left h).disk.locate i.workspace.root = .ok i.location
  /-- A directory of the workspace cannot be created, or the source or a class of the processor cannot be written. -/
  cause : i.workspace.createDirs.outcome { h with disk := h.disk.put (some (.dir [])) i.location } =
      (.error i.fault, i.left h) ∨
    (b.prepare i.workspace unit place source processor).outcome
      { h with disk := h.disk.put (some Workspace.emptyTree) i.location } = (.error i.fault, i.left h)

end Interruption

/-- What it means that a compiler is asked in the course of a compilation: the workspace in which it is, what is
in it then, and what comes of it. -/
structure Consultation where
  workspace : Workspace
  /-- Where the workspace is. -/
  location : Location
  /-- What is in the workspace when the compiler is asked. -/
  contents : FileTree
  sourceFile : Path
  answer : Except CompileError Bool
  /-- The host as the compiler leaves it. -/
  left : Host

namespace Consultation

/-- The host when the compiler is asked: it differs from what it was in the workspace only. -/
def ready (c : Consultation) (h : Host) : Host :=
  { h with disk := h.disk.put (some c.contents) c.location }

/-- What the compilation gives if the workspace can be removed. -/
def result (c : Consultation) (unit : String) : Except CompileError (Option ArtifactSet) :=
  c.answer.bind fun accepted => Workbench.gather c.workspace unit accepted c.left.disk

/-- The compiler of a workbench is asked, on a host that was as given before. The workspace is new, and the
compiler finds nothing where it puts something. -/
structure Of (c : Consultation) (b : Workbench) (place : Path) (source : Option String)
    (processor : Option Processor) (h : Host) : Prop where
  fresh : h.disk.tree.at? c.location = none
  leads : (c.ready h).disk.locate c.workspace.root = .ok c.location
  noClasses : (c.ready h).disk.lookup c.workspace.classesDir = .ok (.dir [])
  noGenerated : (c.ready h).disk.lookup c.workspace.generatedDir = .ok (.dir [])
  /-- The source is in the workspace if it is a text, and else at its place among the sources. -/
  source : c.sourceFile = if source.isSome then c.workspace.sourcesDir.join place
    else b.sourceRoot.join place
  asked : (b.compiler.call (b.request c.workspace c.sourceFile processor)).outcome (c.ready h) =
    (c.answer, c.left)

end Consultation

namespace TemporaryDirs

variable {t : TemporaryDirs} {result : Except CompileError (Option ArtifactSet)} {h : Host}

/-- The fault that counts if a workspace cannot be removed. -/
def firstFault (result : Except CompileError (Option ArtifactSet)) (deletion : CompileError) : CompileError :=
  match result with
  | .ok _ => deletion
  | .error first => first

/-- How a compilation ends that has had a workspace, if it has given the result and left the host before the workspace
is removed. -/
inductive Ends (t : TemporaryDirs) (w : Workspace) (l : Location)
    (result : Except CompileError (Option ArtifactSet)) (left : Host) :
    Except CompileError (Option ArtifactSet) × Host → Prop where
  /-- The workspace is removed, with all that is in it and nothing else, and is not there any more. -/
  | removed (final : Host) (closed : (t.close w).outcome left = (.ok (), final))
    (nothingElse : final = { left with disk := left.disk.put none l })
    (gone : final.disk.exists? w.root = false) : t.Ends w l result left (result, final)
  /-- The workspace cannot be removed, or not all of it, and the compilation fails, with the fault that came first. -/
  | kept (deletion : CompileError) (final : Host)
    (failed : (t.close w).outcome left = (.error deletion, final)) (nothingElse : OnlyAt l left final) :
    t.Ends w l result left (.error (firstFault result deletion), final)

/-- A compilation ends with its own result, unless only the removal of its workspace has failed. -/
theorem settle_outcome {α : Type} (t : TemporaryDirs) (w : Workspace) (result : Except CompileError α) (h : Host) :
    (t.settle w result).outcome h =
      match (t.close w).outcome h with
      | (.ok (), h') => (result, h')
      | (.error fault, h') =>
        match result with
        | .ok _ => (.error fault, h')
        | .error first => (.error first, h') := by
  rw [settle, HostStep.outcome_attempt_bind]
  rcases (t.close w).outcome h with ⟨fault | _, h'⟩
  · cases result <;> rfl
  · exact HostStep.outcome_ofExcept result h'

/-- **In the end the workspace is removed**, or that fails, and so does the compilation. -/
theorem Lawful.settle_ends (lawful : t.Lawful) (s : Site) (result : Except CompileError (Option ArtifactSet))
    (left : Host) :
    t.Ends s.workspace s.location result left ((t.settle s.workspace result).outcome left) := by
  rw [settle_outcome]
  rcases lawful.close_spec s left with ⟨final, failed, nothingElse⟩ | ⟨closed, gone⟩
  · have kept : t.Ends s.workspace s.location result left
        (.error (firstFault result (.io .delete s.root)), final) := .kept _ final failed nothingElse
    rw [failed]
    cases result <;> exact kept
  · rw [closed]
    exact .removed _ closed rfl gone

/-- A workspace that cannot be completed is removed like one in which something has failed. -/
theorem create_bind_of_failed {w : Workspace} {made left : Host} {e : CompileError} {α : Type}
    {k : Workspace → HostStep CompileError α} (reserved : t.reserve.outcome h = (.ok w, made))
    (failed : w.createDirs.outcome made = (.error e, left)) :
    (t.create >>= k).outcome h = (t.settle w (.error e)).outcome left := by
  rw [HostStep.outcome_bind, create, HostStep.outcome_bind, reserved]
  simp only
  rw [HostStep.outcome_attempt_bind, failed]
  simp only
  rw [HostStep.outcome_attempt_bind, settle_outcome]
  rcases (t.close w).outcome left with ⟨_ | _, _⟩ <;> rfl

/-- A workspace that is completed is what is gone on with. -/
theorem create_bind_of_done {w : Workspace} {made left : Host} {α : Type}
    {k : Workspace → HostStep CompileError α} (reserved : t.reserve.outcome h = (.ok w, made))
    (done : w.createDirs.outcome made = (.ok (), left)) :
    (t.create >>= k).outcome h = (k w).outcome left := by
  rw [HostStep.outcome_bind, create, HostStep.outcome_bind, reserved]
  simp only
  rw [HostStep.outcome_attempt_bind, done]
  rfl

end TemporaryDirs

namespace Workbench

variable {b : Workbench} {unit : String} {processor : Option Processor} {source : Option String}

/-- Artifacts are gathered only if the source is accepted and the class of the unit has been made. They are all
that is in the directory for classes. -/
theorem gather_eq_some {w : Workspace} {accepted : Bool} {disk : Disk} {set : ArtifactSet}
    (gathered : gather w unit accepted disk = .ok (some set)) :
    accepted = true ∧
      (∃ file, UnitName.path? unit "class" = some file ∧ disk.isFile (w.classesDir.join file) = true) ∧
      ArtifactSet.collect disk w.classesDir = .ok set := by
  unfold gather at gathered
  simp only at gathered
  split at gathered
  next both =>
    obtain ⟨accepted, made⟩ := (Bool.and_eq_true _ _).mp both
    have made : ∃ file, UnitName.path? unit "class" = some file ∧
        disk.isFile (w.classesDir.join file) = true := by
      cases found : UnitName.path? unit "class" with
      | none =>
        rw [found] at made
        cases made
      | some file =>
        rw [found] at made
        exact ⟨file, rfl, made⟩
    refine ⟨accepted, made, ?_⟩
    cases collected : ArtifactSet.collect disk w.classesDir with
    | error e =>
      rw [collected] at gathered
      cases gathered
    | ok set' =>
      rw [collected] at gathered
      cases gathered
      rfl
  next => cases gathered

/-- A compilation in a workspace stops before the compiler is asked, or asks it. -/
theorem compileIn_outcome {s : Site} {h : Host} {t : FileTree} (holds : s.Holds h.disk t)
    (ready : t.Ready)
    (possible : ∀ name ∈ Workspace.dirNames, Disk.checkPath (s.root.join ⟨name⟩) = .ok ())
    (plain : ∀ p ∈ processor, p.artifacts.IsPlain) {place : Path}
    (found : UnitName.path? unit "java" = some place) :
    ∃ u : FileTree, u.Ready ∧ s.Holds (h.disk.put (some u) s.location) u ∧
      ((∃ e, (b.prepare s.workspace unit place source processor).outcome h =
            (.error e, { h with disk := h.disk.put (some u) s.location }) ∧
          (b.compileIn s.workspace unit place source processor).outcome h =
            (.error e, { h with disk := h.disk.put (some u) s.location })) ∨
        ∃ sourceFile answer left,
          (sourceFile = if source.isSome then s.workspace.sourcesDir.join place
            else b.sourceRoot.join place) ∧
          (b.compiler.call (b.request s.workspace sourceFile processor)).outcome
            { h with disk := h.disk.put (some u) s.location } = (answer, left) ∧
          (b.compileIn s.workspace unit place source processor).outcome h =
            (answer.bind fun accepted => gather s.workspace unit accepted left.disk, left)) := by
  obtain ⟨u, ready', holds', r, prepared, where_⟩ := holds.prepare ready possible plain b found source
  refine ⟨u, ready', holds', ?_⟩
  rw [compileIn, HostStep.outcome_bind, prepared]
  cases r with
  | error e => exact .inl ⟨e, rfl, rfl⟩
  | ok sourceFile =>
    obtain ⟨answer, left, called⟩ : ∃ answer left,
        (b.compiler.call (b.request s.workspace sourceFile processor)).outcome
          { h with disk := h.disk.put (some u) s.location } = (answer, left) := ⟨_, _, rfl⟩
    refine .inr ⟨sourceFile, answer, left, where_ sourceFile rfl, called, ?_⟩
    simp only
    rw [HostStep.outcome_bind, called]
    cases answer with
    | error e => rfl
    | ok accepted =>
      simp only
      rw [HostStep.outcome_bind]
      exact HostStep.outcome_ofExcept _ left

/-- **How a compilation goes**, wherever its workspace comes from. For a name of no unit nothing happens. Otherwise
there is no room for a workspace, and nothing has changed; or the compilation stops in a new workspace, in which alone
something has changed; or the compiler is asked, once, in a new workspace, in which there is nothing where the compiler
puts something. Then artifacts are given only if the compiler accepts the source and has made the class of the unit,
and they are those that it has left in the directory for classes. In any case the workspace is removed in the end and
is not there any more; or that fails, and so does the compilation, with the fault that came first. -/
theorem compile_course {t : TemporaryDirs} (lawful : t.Lawful) (b : Workbench) (unit : String)
    (source : Option String) (processor : Option Processor) (h : Host) (wf : h.disk.tree.WellFormed)
    (plain : ∀ p ∈ processor, p.artifacts.IsPlain) :
    match UnitName.path? unit "java" with
    | none => (b.compileWith t unit source processor).outcome h = (.error (.invalidUnitName unit), h)
    | some place =>
      (∃ e, t.reserve.outcome h = (.error e, h) ∧
        (b.compileWith t unit source processor).outcome h = (.error e, h)) ∨
      (∃ i : Interruption, i.Of b unit place source processor h ∧
        t.Ends i.workspace i.location (.error i.fault) (i.left h)
          ((b.compileWith t unit source processor).outcome h)) ∨
      ∃ c : Consultation, c.Of b place source processor h ∧
        (∀ set, c.result unit = .ok (some set) → c.answer = .ok true ∧
          (∃ file, UnitName.path? unit "class" = some file ∧
            c.left.disk.isFile (c.workspace.classesDir.join file) = true) ∧
          ArtifactSet.collect c.left.disk c.workspace.classesDir = .ok set) ∧
        t.Ends c.workspace c.location (c.result unit) c.left
          ((b.compileWith t unit source processor).outcome h) := by
  unfold compileWith
  cases found : UnitName.path? unit "java" with
  | none => exact HostStep.outcome_throw _ h
  | some place =>
    simp only
    rcases lawful.reserve_spec h wf with ⟨e, failed⟩ | ⟨s, base, holds, reserved⟩
    · left
      refine ⟨e, failed, ?_⟩
      rw [HostStep.outcome_bind, TemporaryDirs.create, HostStep.outcome_bind, failed]
    right
    have free : h.disk.tree.at? s.location = none := base ▸ s.free
    -- From here on there is a workspace, and whatever goes wrong in it, it is removed in the end.
    rcases s.createDirs_outcome holds with ⟨e, u, holds', failed⟩ | ⟨possible, holds', done⟩
    · left
      rw [TemporaryDirs.create_bind_of_failed reserved failed]
      exact ⟨⟨s.workspace, s.location, u, e⟩, ⟨free, holds'.locate_root, .inl failed⟩,
        lawful.settle_ends s _ _⟩
    rw [TemporaryDirs.create_bind_of_done reserved done, HostStep.outcome_attempt_bind]
    obtain ⟨u, ready, holds'', course⟩ := compileIn_outcome
      (h := { h with disk := h.disk.put (some Workspace.emptyTree) s.location }) (b := b)
      holds' FileTree.ready_emptyTree possible plain found
    simp only [Disk.put_put] at holds'' course
    rcases course with ⟨e, unready, stopped⟩ | ⟨sourceFile, answer, left, place', asked, gathered⟩
    · left
      rw [stopped]
      exact ⟨⟨s.workspace, s.location, u, e⟩, ⟨free, holds''.locate_root, .inr unready⟩,
        lawful.settle_ends s _ _⟩
    · right
      rw [gathered]
      refine ⟨⟨s.workspace, s.location, u, sourceFile, answer, left⟩, ?_, ?_, lawful.settle_ends s _ _⟩
      · exact ⟨free, holds''.locate_root,
          holds''.lookup_name (by decide) (possible "classes" (by decide)) (by decide) ready.classes,
          holds''.lookup_name (by decide) (possible "generated" (by decide)) (by decide) ready.generated,
          place', asked⟩
      · intro set given
        obtain ⟨accepted, answered, gathered⟩ := bind_eq_ok.mp given
        obtain ⟨yes, made, collected⟩ := gather_eq_some gathered
        exact ⟨by rw [answered, yes], made, collected⟩

/-- A host with a directory for temporary files, and with nothing else. -/
def bareHost : Host := { disk := ⟨.dir [⟨"tmp", .dir []⟩], []⟩, environment := [] }

/-- A processor of one class. -/
def smallProcessor : Processor := ⟨"P", ⟨[("P", ⟨["P.class"], [0xCA, 0xFE]⟩)]⟩⟩

/-- A processor with a file where one of its classes needs a directory. -/
def clashingProcessor : Processor := ⟨"P", ⟨[("A", ⟨["A"], []⟩), ("A.B", ⟨["A", "B.class"], [0xCA, 0xFE]⟩)]⟩⟩

/-- A workbench whose compiler makes one class. -/
def smallBench : Workbench where
  sourceRoot := ⟨"/src"⟩
  classPath := []
  compiler := RuleCompiler.ofRules
    [{ processor := some "P", outputs := [(⟨"Example.class"⟩, some [1])] }]

/-- What it makes. -/
def smallArtifacts : ArtifactSet := ⟨[("Example", ⟨["Example.class"], [1]⟩)]⟩

/-- A workbench whose compiler makes nothing. -/
def idleBench : Workbench := { smallBench with compiler := fun _ => return true }

/-- Directories that can be made and not removed. -/
def lastingDirs : TemporaryDirs where
  make := TemporaryDirs.numbered.make
  remove _ := throw .notExecutable

/-- Directories that cannot be removed are lawful: their removal fails. -/
theorem lastingDirs_lawful : lastingDirs.Lawful where
  makes := Workspace.numbered_lawful.makes
  removes _ _ := .inl ⟨_, rfl⟩

/-- A compilation of a small class on that host. -/
def smallRun (b : Workbench) (t : TemporaryDirs) (processor : Processor) :
    Except CompileError (Option ArtifactSet) × Host :=
  (b.compileWith t "Example" (some "class Example") (some processor)).outcome bareHost

/-- On that host the compiler is asked, and its class is given if the workspace can be removed. If it cannot, the
compilation fails for that, or for what has gone wrong before it. -/
theorem compile_course_bareHost :
    bareHost.disk.tree.WellFormed ∧
    (∀ p ∈ [smallProcessor, clashingProcessor], p.artifacts.IsPlain) ∧
    TemporaryDirs.numbered.Lawful ∧ lastingDirs.Lawful ∧
    (∃ (c : Consultation) (final : Host),
      c.Of smallBench ⟨"Example.java"⟩ (some "class Example") (some smallProcessor) bareHost ∧
      smallRun smallBench .numbered smallProcessor = (.ok (some smallArtifacts), final) ∧
      final.disk.exists? c.workspace.root = false) ∧
    (∃ (c : Consultation) (final : Host),
      c.Of smallBench ⟨"Example.java"⟩ (some "class Example") (some smallProcessor) bareHost ∧
      (lastingDirs.close c.workspace).outcome c.left = (.error (.io .delete c.workspace.root), final) ∧
      smallRun smallBench lastingDirs smallProcessor = (.error (.io .delete ⟨"/tmp/diamond-000000"⟩), final) ∧
      final.disk.exists? ⟨"/tmp/diamond-000000"⟩ = true) ∧
    ∃ (i : Interruption) (final : Host),
      i.Of idleBench "Example" ⟨"Example.java"⟩ (some "class Example") (some clashingProcessor) bareHost ∧
      (lastingDirs.close i.workspace).outcome (i.left bareHost) = (.error (.io .delete i.workspace.root), final) ∧
      smallRun idleBench lastingDirs clashingProcessor =
        (.error (.io .create ⟨"/tmp/diamond-000000/processor/A"⟩), final) ∧
      final.disk.exists? ⟨"/tmp/diamond-000000"⟩ = true := by
  have wf : bareHost.disk.tree.WellFormed := rfl
  have plain : ∀ p ∈ [smallProcessor, clashingProcessor], p.artifacts.IsPlain := by
    unfold ArtifactSet.IsPlain smallProcessor clashingProcessor
    decide
  have course (t : TemporaryDirs) (lawful : t.Lawful) (b : Workbench) (p : Processor)
      (mem : p ∈ [smallProcessor, clashingProcessor]) :=
    compile_course lawful b "Example" (some "class Example") (some p) bareHost wf
      (by rintro _ ⟨⟩; exact plain p mem)
  have place : UnitName.path? "Example" "java" = some ⟨"Example.java"⟩ := by decide +kernel
  simp only [place] at course
  refine ⟨wf, plain, Workspace.numbered_lawful, lastingDirs_lawful, ?_, ?_, ?_⟩
  · have course := course _ Workspace.numbered_lawful smallBench smallProcessor (by simp)
    have given : (smallRun smallBench .numbered smallProcessor).1 = .ok (some smallArtifacts) := by decide +kernel
    rw [← smallRun] at course
    generalize smallRun smallBench .numbered smallProcessor = outcome at given course ⊢
    rcases course with ⟨e, -, rfl⟩ | ⟨i, -, ends⟩ | ⟨c, asked, -, ends⟩
    · cases given
    · cases ends <;> cases given
    · cases ends with
      | removed final _ _ gone => exact ⟨c, final, asked, Prod.ext given rfl, gone⟩
      | kept => cases given
  · have course := course _ lastingDirs_lawful smallBench smallProcessor (by simp)
    have given : (smallRun smallBench lastingDirs smallProcessor).1 =
        .error (.io .delete ⟨"/tmp/diamond-000000"⟩) := by decide +kernel
    have called : (smallRun smallBench lastingDirs smallProcessor).2.calls.length = 1 := by decide +kernel
    have there : (smallRun smallBench lastingDirs smallProcessor).2.disk.exists? ⟨"/tmp/diamond-000000"⟩ = true := by
      decide +kernel
    rw [← smallRun] at course
    generalize smallRun smallBench lastingDirs smallProcessor = outcome at given called there course ⊢
    rcases course with ⟨e, -, rfl⟩ | ⟨i, -, ends⟩ | ⟨c, asked, -, ends⟩
    · cases called
    · cases ends with
      | removed _ closed => cases closed
      | kept _ final failed =>
        cases failed
        cases called
    · cases ends with
      | removed _ closed => cases closed
      | kept _ final failed =>
        refine ⟨c, final, asked, ?_, Prod.ext given rfl, there⟩
        rw [failed]
        cases failed
        rfl
  · have course := course _ lastingDirs_lawful idleBench clashingProcessor (by simp)
    have given : (smallRun idleBench lastingDirs clashingProcessor).1 =
        .error (.io .create ⟨"/tmp/diamond-000000/processor/A"⟩) := by decide +kernel
    have called : (smallRun idleBench lastingDirs clashingProcessor).2.calls.length = 0 := by decide +kernel
    have there : (smallRun idleBench lastingDirs clashingProcessor).2.disk.exists? ⟨"/tmp/diamond-000000"⟩ = true := by
      decide +kernel
    rw [← smallRun] at course
    generalize smallRun idleBench lastingDirs clashingProcessor = outcome at given called there course ⊢
    rcases course with ⟨e, -, rfl⟩ | ⟨i, stops, ends⟩ | ⟨c, asked, -, ends⟩
    · cases there
    · cases ends with
      | removed _ closed => cases closed
      | kept _ final failed =>
        refine ⟨i, final, stops, ?_, Prod.ext given rfl, there⟩
        rw [failed]
        cases failed
        rfl
    · have left := (Prod.mk.inj asked.asked).2
      cases ends with
      | removed _ closed => cases closed
      | kept _ final failed =>
        cases failed
        rw [← left] at called
        cases called

end Workbench

end ProcessorBench
