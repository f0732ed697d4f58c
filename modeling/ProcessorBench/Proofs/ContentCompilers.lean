import ProcessorBench.Compilation.ContentCompiler
import ProcessorBench.Proofs.Workspaces

/-!
# Compilers that go by content, in twin workspaces

A compiler that goes by content sees the same in twin workspaces with the same files (`ContentCompiler.content_eq`),
and so it does the same there (`ContentCompiler.alike_call`). Where a workspace is, and when the compiler is asked,
makes no difference.
-/

namespace ProcessorBench

namespace Disk

/-- Filling a directory replaces what is in it, if there is one. -/
theorem fill_run (p : Path) (entries : List DirEntry) (d : Disk) :
    fill p entries d = match d.locate p with
      | .error fault => .error fault d
      | .ok l => match d.tree.at? l with
        | some (.dir _) => .ok () (d.put (some (.dir entries)) l)
        | some (.file ..) => .error .notDirectory d
        | none => .error .missing d := by
  refine (locating_bind p _ d).trans ?_
  cases d.locate p with
  | error fault => rfl
  | ok l =>
    simp only
    show (match d.tree.at? l with
      | some (.dir _) => putAt l (some (.dir entries))
      | some (.file ..) => throw .notDirectory
      | none => throw .missing : DiskStep Unit) d = _
    rcases d.tree.at? l with _ | (_ | _) <;> rfl

end Disk

namespace Site

variable {s s' : Site} {d d' : Disk} {t : FileTree} {name : String}

/-- Filling the same directory of two workspaces changes both in the same way. -/
theorem changes_fill (twin : s.Twin s') (named : Path.isName name = true) {entries : List DirEntry}
    (wf : (FileTree.dir entries).WellFormed) (holds : s.Holds d t) (holds' : s'.Holds d' t) :
    s.Changes s' d d' (Disk.fill (s.root.join ⟨name⟩) entries d)
      (Disk.fill (s'.root.join ⟨name⟩) entries d') := by
  have each : ∀ n ∈ [name], Path.isName n = true := by simpa using named
  have located := holds.locate each
  have located' := holds'.locate each
  rw [Path.joinAll_singleton] at located located'
  rw [Disk.fill_run, Disk.fill_run, located, located', twin.reach each]
  cases s'.reach t [name] with
  | error fault => exact .none holds holds' _ _
  | ok =>
    simp only [Except.map]
    rw [holds.at?, holds'.at?]
    split
    · exact .put holds holds' wf named []
    · exact .none holds holds' _ _
    · exact .none holds holds' _ _

end Site

namespace ContentCompiler

variable {s s' : Site} {p p' : Path}

/-- What is at a name in twins with the same files. -/
theorem lookup_eq (twin : s.Twin s') {d d' : Disk} {t : FileTree} (holds : s.Holds d t)
    (holds' : s'.Holds d' t) (name : String) (named : Path.isName name = true) :
    d.lookup (s.root.join ⟨name⟩) = d'.lookup (s'.root.join ⟨name⟩) := by
  have each : ∀ n ∈ [name], Path.isName n = true := by simpa using named
  have same := twin.lookup holds holds' each
  rwa [Path.joinAll_singleton, Path.joinAll_singleton] at same

/-- **The content of a request** for a source in a workspace does not depend on where the workspace is. -/
theorem content_eq (twin : s.Twin s') (follow : s.Follow s' p p') (b : Workbench)
    (processor : Option Processor) {d d' : Disk} {t : FileTree} (holds : s.Holds d t)
    (holds' : s'.Holds d' t) :
    content (b.request s.workspace p processor) d = content (b.request s'.workspace p' processor) d' := by
  obtain ⟨names, named, rfl, rfl⟩ := follow
  have isName_classes : ∀ n ∈ ["classes"], Path.isName n = true := by decide
  have place {s : Site} : (s.root.joinAll names).segments.drop
      (s.workspace.classesDir.segments.length - 1) = names := by
    have classes : s.workspace.classesDir = s.root.joinAll ["classes"] := rfl
    rw [classes, s.ends.segments_joinAll isName_classes, s.ends.segments_joinAll named, List.length_append]
    exact List.drop_left
  have source : d.read (s.root.joinAll names) = d'.read (s'.root.joinAll names) := by
    unfold Disk.read
    rw [twin.lookup holds holds' named]
  have classes := lookup_eq twin holds holds' "classes" (by decide)
  have generated := lookup_eq twin holds holds' "generated" (by decide)
  have attached := lookup_eq twin holds holds' "processor" (by decide)
  have elsewhere (w : Workspace) (p : Path) :
      (b.request w p processor).classPath.dropLast = b.classPath ++ [b.sourceRoot] :=
    List.dropLast_append_of_ne_nil (List.cons_ne_nil _ _)
  unfold content
  rw [RequestContent.mk.injEq]
  refine ⟨place.trans place.symm, congrArg Except.toOption source, (elsewhere _ _).trans (elsewhere _ _).symm, ?_,
    congrArg Except.toOption classes, congrArg Except.toOption generated⟩
  cases processor with
  | none => rfl
  | some p => exact congrArg (fun found => some (p.className, found.toOption)) attached

variable (answer : RequestContent → CompilerAnswer)

/-- Looking at a request notes the call, and tells what the request comes to on the disk. -/
theorem look_outcome (request : CompileRequest) (h : Host) :
    (look request).outcome h =
      (.ok (content request h.disk), { h with calls := ⟨request, h.disk⟩ :: h.calls }) := rfl

/-- Looking at a request is a call, and changes nothing else. -/
theorem alike_look (twin : s.Twin s') (follow : s.Follow s' p p') (b : Workbench)
    (processor : Option Processor) :
    s.Alike s' (fun _ => True) (Both Eq) (look (b.request s.workspace p processor))
      (look (b.request s'.workspace p' processor)) := by
  intro h h' t holds holds'
  rw [look_outcome, look_outcome]
  have moves {s : Site} {h : Host} (holds : s.Holds h.disk t) (call : CompilerCall) :
      s.Moves (fun _ => True) h t { h with calls := call :: h.calls } :=
    ⟨[call], fun _ _ => trivial, by rw [holds.put_self]; rfl⟩
  exact ⟨t, holds.isDir, holds.wellFormed_tree, .ok (content_eq twin follow b processor holds holds'),
    moves holds _, moves holds' _⟩

/-- Leaving something behind changes the disk, and does not fail. -/
theorem leave_outcome (dir : Path) (entries : List DirEntry) (h : Host) :
    (leave dir entries).outcome h = (.ok (), { h with disk := Disk.after (Disk.fill dir entries) h.disk }) := by
  unfold leave
  rw [HostStep.outcome_attempt_bind, HostStep.outcome_pure, Disk.after]
  unfold HostStep.outcome HostStep.onDisk
  cases Disk.fill dir entries h.disk <;> rfl

/-- The same is left behind in workspaces that are twins. -/
theorem alike_leave (twin : s.Twin s') {name : String} (named : Path.isName name = true)
    {entries : List DirEntry} (wf : (FileTree.dir entries).WellFormed) :
    s.Alike s' (fun _ => True) (Both fun _ _ => True) (leave (s.root.join ⟨name⟩) entries)
      (leave (s'.root.join ⟨name⟩) entries) := by
  intro h h' t holds holds'
  rw [leave_outcome, leave_outcome]
  have changes := Site.changes_fill twin named wf holds holds'
  unfold Disk.after
  generalize Disk.fill (s.root.join ⟨name⟩) entries h.disk = r at changes
  generalize Disk.fill (s'.root.join ⟨name⟩) entries h'.disk = r' at changes
  cases changes with
  | @ok u isDir wf => exact ⟨u, isDir, wf, .ok trivial, ⟨[], nofun, rfl⟩, ⟨[], nofun, rfl⟩⟩
  | @error u isDir wf fault fault' => exact ⟨u, isDir, wf, .ok trivial, ⟨[], nofun, rfl⟩, ⟨[], nofun, rfl⟩⟩

/-- **Asking a compiler that goes by content** is alike in twin workspaces. -/
theorem alike_call (twin : s.Twin s') (follow : s.Follow s' p p') (b : Workbench)
    (processor : Option Processor) :
    Job.Alike s s' (fun _ => True) (Both Eq) (call answer (b.request s.workspace p processor))
      (call answer (b.request s'.workspace p' processor)) := by
  refine .bind (.ofStep (alike_look twin follow b processor)) fun seen _ same => ?_
  subst same
  have classes := alike_leave twin (by decide : Path.isName "classes" = true) (answer seen).classes_wellFormed
  have generated := alike_leave twin (by decide : Path.isName "generated" = true)
    (answer seen).generated_wellFormed
  refine .bind (.ofStep classes) fun _ _ _ => ?_
  refine .bind (.ofStep generated) fun _ _ _ => ?_
  cases (answer seen).result with
  | error e => exact .done (.error e e)
  | ok accepted => exact .done (.ok rfl)

end ContentCompiler

end ProcessorBench
