import ProcessorBench.Proofs.ContentCompilers
import ProcessorBench.Proofs.Files

/-!
# Jobs with their workspaces elsewhere

Jobs that have one workspace at a time, and that do the same wherever these are, are similar (`Job.Similar`).
Compilations by a compiler that goes by content are such jobs (`Job.similar_compile`). In the end a similar job
leaves nothing but calls (`Job.Similar.restores`).
-/

namespace ProcessorBench

/-- Two compilations have made the same, which are files at places along names. -/
def SameMade (made made' : Option ArtifactSet) : Prop := made = made' ∧ ∀ set ∈ made, set.IsPlain

namespace Workbench

variable {s s' : Site}

/-- Paths that follow twin sites lead to files at the same time. -/
theorem isFile_eq (twin : s.Twin s') {d d' : Disk} {t : FileTree} (holds : s.Holds d t)
    (holds' : s'.Holds d' t) {p p' : Path} (follow : s.Follow s' p p') : d.isFile p = d'.isFile p' := by
  obtain ⟨names, named, rfl, rfl⟩ := follow
  unfold Disk.isFile
  rw [twin.lookup holds holds' named]

/-- What is gathered from twins with the same files is the same, unless it cannot be. -/
theorem gather_eq (twin : s.Twin s') (unit : String) (accepted : Bool) {d d' : Disk} {t : FileTree}
    (holds : s.Holds d t) (holds' : s'.Holds d' t) :
    Both SameMade (gather s.workspace unit accepted d) (gather s'.workspace unit accepted d') := by
  have follow : s.Follow s' s.workspace.classesDir s'.workspace.classesDir :=
    ⟨["classes"], by decide, rfl, rfl⟩
  have made : ((UnitName.path? unit "class").any fun file =>
        d.isFile (s.workspace.classesDir.join file)) =
      (UnitName.path? unit "class").any fun file => d'.isFile (s'.workspace.classesDir.join file) := by
    cases found : UnitName.path? unit "class" with
    | none => rfl
    | some place =>
      obtain ⟨front, last, rfl, named⟩ := UnitName.exists_names_of_path? found (by decide)
      exact isFile_eq twin holds holds' (follow.join_ofNames (by simp) named)
  have classes := ContentCompiler.lookup_eq twin holds holds' "classes" (by decide)
  unfold gather
  simp only
  rw [made]
  split
  · have looked : d.lookup s.workspace.classesDir = d'.lookup s'.workspace.classesDir := classes
    have plain := @ArtifactSet.collect_isPlain d s.workspace.classesDir
    unfold ArtifactSet.collect at plain ⊢
    rw [looked] at plain ⊢
    generalize d'.lookup s'.workspace.classesDir = found at plain ⊢
    cases found with
    | error fault => exact .error _ _
    | ok tree =>
      simp only at plain ⊢
      cases gathered : ArtifactSet.ofFiles {} tree.files with
      | error e => exact .error e e
      | ok set =>
        refine .ok ⟨rfl, ?_⟩
        rintro _ ⟨⟩
        exact plain holds.wellFormed gathered
  · exact .ok ⟨rfl, nofun⟩

end Workbench

namespace Job

variable {s s' : Site} {base : FileTree} {ε ε₁ α α₁ : Type}

/-- **A compilation in a workspace** is alike in twins. -/
theorem alike_compileIn (twin : s.Twin s') (b : Workbench) (answer : RequestContent → CompilerAnswer)
    (unit : String) (place : Path) (source : String) {processor : Option Processor}
    (plain : ∀ p ∈ processor, p.artifacts.IsPlain) :
    Alike s s' (fun _ => True) (Both SameMade)
      (compileIn b (ContentCompiler.call answer) s.workspace unit place (some source) processor)
      (compileIn b (ContentCompiler.call answer) s'.workspace unit place (some source) processor) := by
  have sources : s.Follow s' s.workspace.sourcesDir s'.workspace.sourcesDir :=
    ⟨["sources"], by decide, rfl, rfl⟩
  have processors : s.Follow s' s.workspace.processorDir s'.workspace.processorDir :=
    ⟨["processor"], by decide, rfl, rfl⟩
  have prepared : Alike s s' (fun _ => True) (Both (s.Follow s'))
      (prepare b s.workspace unit place (some source) processor)
      (prepare b s'.workspace unit place (some source) processor) := by
    refine .bind (alike_writeSource twin _ sources unit source) fun p p' follow => ?_
    refine .bind (R := fun _ _ => True) ?_ fun _ _ _ => .pure follow
    cases processor with
    | none => exact .pure trivial
    | some p => exact alike_writeTo twin _ processors (plain p rfl)
  refine .bind prepared fun p p' follow => ?_
  refine .bind (ContentCompiler.alike_call answer twin follow b processor) fun accepted _ same => ?_
  subst same
  exact .ofStep (Site.alike_read _ fun _ _ _ holds holds' =>
    Workbench.gather_eq twin unit accepted holds holds')

/-- Two jobs are similar: they take steps that are alike on a workspace that each of them has, wherever that is
among what is on the disk else. The sites are those of the workspaces that they have when they begin. -/
inductive Similar (base : FileTree) {ε α : Type} (Q : Except ε α → Except ε α → Prop) :
    Option (Site × Site) → Job ε α → Job ε α → Prop
  | done {r r' : Except ε α} (related : Q r r') : Similar base Q none (.done r) (.done r')
  | reserve {next next' : Except CompileError Workspace → Job ε α}
    (refused : ∀ e, Similar base Q none (next (.error e)) (next' (.error e)))
    (granted : ∀ s s' : Site, s.base = base → s'.base = base → s.Twin s' →
      Similar base Q (some (s, s')) (next (.ok s.workspace)) (next' (.ok s'.workspace))) :
    Similar base Q none (.reserve next) (.reserve next')
  | act {s s' : Site} {ε₁ ε₂ α₁ α₂ : Type} {Q' : Except ε₁ α₁ → Except ε₂ α₂ → Prop}
    {step : HostStep ε₁ α₁} {step' : HostStep ε₂ α₂} {next : Except ε₁ α₁ → Job ε α}
    {next' : Except ε₂ α₂ → Job ε α} (alike : s.Alike s' (fun _ => True) Q' step step')
    (rest : ∀ r r', Q' r r' → Similar base Q (some (s, s')) (next r) (next' r')) :
    Similar base Q (some (s, s')) (.act step next) (.act step' next')
  | close {s s' : Site} {next next' : Except CompileError Unit → Job ε α}
    (rest : Similar base Q none (next (.ok ())) (next' (.ok ()))) :
    Similar base Q (some (s, s')) (.act s.workspace.close next) (.act s'.workspace.close next')

variable {Q : Except ε α → Except ε α → Prop} {Q₁ : Except ε₁ α₁ → Except ε₁ α₁ → Prop}

/-- Jobs that are alike, and similar ones after them. -/
theorem Alike.similar {ε₂ α₂ : Type} {Q' : Except ε₁ α₁ → Except ε₂ α₂ → Prop} {job : Job ε₁ α₁}
    {job' : Job ε₂ α₂} {k : Except ε₁ α₁ → Job ε α} {k' : Except ε₂ α₂ → Job ε α}
    (first : Alike s s' (fun _ => True) Q' job job')
    (rest : ∀ r r', Q' r r' → Similar base Q (some (s, s')) (k r) (k' r')) :
    Similar base Q (some (s, s')) (job.andThen k) (job'.andThen k') := by
  induction first with
  | done related => exact rest _ _ related
  | act alike _ ih => exact .act alike fun r r' related => ih r r' related

/-- Jobs that are similar can be continued by similar ones. -/
theorem Similar.andThen {at_ : Option (Site × Site)} {job job' : Job ε₁ α₁} {k k' : Except ε₁ α₁ → Job ε α}
    (first : Similar base Q₁ at_ job job')
    (rest : ∀ r r', Q₁ r r' → Similar base Q none (k r) (k' r')) :
    Similar base Q at_ (job.andThen k) (job'.andThen k') := by
  induction first with
  | done related => exact rest _ _ related
  | reserve _ _ ih ih' => exact .reserve ih ih'
  | act alike _ ih => exact .act alike fun r r' related => ih r r' related
  | close _ ih => exact .close ih

/-- It makes no difference how jobs are put in a row. -/
theorem andThen_assoc {ε' ε'' β γ : Type} (job : Job ε α) (k : Except ε α → Job ε' β)
    (k' : Except ε' β → Job ε'' γ) :
    (job.andThen k).andThen k' = job.andThen fun r => (k r).andThen k' := by
  induction job with
  | done result => rfl
  | act step next ih => exact congrArg (Job.act step) (funext ih)
  | reserve next ih => exact congrArg Job.reserve (funext ih)

/-- **A compilation** by a compiler that goes by content is similar to itself: it gives the same, wherever its
workspace is. -/
theorem similar_compile (base : FileTree) (b : Workbench) (answer : RequestContent → CompilerAnswer)
    (unit source : String) {processor : Option Processor}
    (plain : ∀ p ∈ processor, p.artifacts.IsPlain) :
    Similar base (Both SameMade) none
      (compile b (ContentCompiler.call answer) unit (some source) processor)
      (compile b (ContentCompiler.call answer) unit (some source) processor) := by
  unfold compile
  cases UnitName.path? unit "java" with
  | none => exact .done (.error _ _)
  | some place =>
    refine .reserve (fun e => .done (.error e e)) fun s s' _ _ twin => ?_
    simp only
    rw [andThen_assoc, andThen_assoc]
    refine (alike_createDirs twin _).similar fun r r' related => ?_
    cases related with
    | error e e' => exact .close (.done (.error e e'))
    | ok _ =>
      refine (alike_compileIn twin b answer unit place source plain).similar fun r r' related => ?_
      exact .close (.done related)

end Job

/-! ## Nothing is left -/

/-- A host on which nothing but one workspace, if that, is not as it was on a disk. -/
inductive Site.Solo (d : Disk) : Option Site → FileTree → Host → Prop
  | outside {t : FileTree} {h : Host} (disk : h.disk = d) : Solo d none t h
  | inside {s : Site} {t : FileTree} {h : Host} (base : s.base = d.tree) (holds : s.Holds h.disk t)
    (disk : h.disk = d.put (some t) s.location) : Solo d (some s) t h

namespace Site

variable {s : Site} {d : Disk} {t u : FileTree} {h h' : Host}

/-- Who is alone at a site holds its tree. -/
theorem Solo.holds (solo : Solo d (some s) t h) : s.Holds h.disk t := by
  cases solo with
  | inside _ holds _ => exact holds

/-- Who is alone stays alone when only the site changes. -/
theorem Solo.moves {P : CompilerCall → Prop} (solo : Solo d (some s) t h) (moves : s.Moves P h u h')
    (isDir : u.isDir = true) (wf : u.WellFormed) : Solo d (some s) u h' := by
  cases solo with
  | inside base holds disk =>
    refine .inside base (moves.holds holds isDir wf) ?_
    obtain ⟨_, _, rfl⟩ := moves
    show h.disk.put (some u) s.location = _
    rw [disk, Disk.put_put]

/-- What changes below a site leaves the environment. -/
theorem Moves.environment {P : CompilerCall → Prop} (moves : s.Moves P h u h') :
    h'.environment = h.environment := by
  obtain ⟨_, _, rfl⟩ := moves
  rfl

/-- Who is alone leaves the disk as it was before. -/
theorem Solo.close (solo : Solo d (some s) t h) (wf : d.tree.WellFormed) :
    s.workspace.close.outcome h = (.ok (), { h with disk := d }) := by
  cases solo with
  | inside base holds disk => rw [holds.close, disk, s.put_none base wf]

/-- Reserving a workspace on two hosts with the same disk and the same environment. -/
theorem Solo.reserve (wf : d.tree.WellFormed) (disk : h.disk = d) (disk' : h'.disk = d)
    (environment : h.environment = h'.environment) :
    (∃ e, Workspace.reserve.outcome h = (.error e, h) ∧
      Workspace.reserve.outcome h' = (.error e, h')) ∨
    ∃ s : Site, s.base = d.tree ∧
      Workspace.reserve.outcome h =
        (.ok s.workspace, { h with disk := d.put (some (.dir [])) s.location }) ∧
      Workspace.reserve.outcome h' =
        (.ok s.workspace, { h' with disk := d.put (some (.dir [])) s.location }) ∧
      s.Holds (d.put (some (.dir [])) s.location) (.dir []) := by
  subst disk
  obtain ⟨same, same'⟩ := Workspace.reserve_congr h h' disk'.symm environment
  rcases Workspace.reserve_spec h wf with ⟨e, failed⟩ | ⟨s, base, holds, done⟩
  · rw [failed] at same same'
    refine .inl ⟨e, failed, Prod.ext same (same'.trans ?_)⟩
    show { h' with disk := h.disk } = h'
    rw [← disk']
  · rw [done] at same same'
    exact .inr ⟨s, base, done, Prod.ext same same', holds⟩

end Site

namespace Job

variable {base : FileTree} {ε α : Type} {Q : Except ε α → Except ε α → Prop}

/-- **Similar jobs** give related results on hosts with the same disk and the same environment, and in the end the
disk is as it was. -/
theorem Similar.run {d : Disk} (wf : d.tree.WellFormed) {at_ : Option (Site × Site)} {job job' : Job ε α}
    (similar : Similar d.tree Q at_ job job') (h h' : Host) {t : FileTree}
    (solo : Site.Solo d (at_.map (·.1)) t h) (solo' : Site.Solo d (at_.map (·.2)) t h')
    (environment : h.environment = h'.environment) :
    Q (job.run.outcome h).1 (job'.run.outcome h').1 ∧
      ∃ calls, (job.run.outcome h).2 = { h with disk := d, calls := calls ++ h.calls } := by
  -- The hosts are generalized, since what is left of the jobs goes on with those that a step has left.
  induction similar generalizing h h' t with
  | done related =>
    rw [outcome_run_done, outcome_run_done]
    cases solo with
    | outside disk => exact ⟨related, [], by rw [← disk]; rfl⟩
  | reserve _ _ ih ih' =>
    rw [outcome_run_reserve, outcome_run_reserve]
    cases solo with
    | outside disk =>
    cases solo' with
    | outside disk' =>
    rcases Site.Solo.reserve wf disk disk' environment with
      ⟨e, failed, failed'⟩ | ⟨s, base, done, done', holds⟩
    · rw [failed, failed']
      exact ih e h h' (t := t) (.outside disk) (.outside disk') environment
    · rw [done, done']
      exact ih' s s base base (.refl s) { h with disk := d.put _ s.location }
        { h' with disk := d.put _ s.location } (.inside base holds rfl) (.inside base holds rfl)
        environment
  | @act s s' _ _ _ _ _ step step' _ _ alike _ ih =>
    rw [outcome_run_act, outcome_run_act]
    obtain ⟨u, isDir, wf', related, moves, moves'⟩ := alike solo.holds solo'.holds
    obtain ⟨related, calls, left⟩ := ih _ _ related _ _ (solo.moves moves isDir wf')
      (solo'.moves moves' isDir wf') (moves.environment.trans (environment.trans moves'.environment.symm))
    obtain ⟨before, _, same⟩ := moves
    refine ⟨related, calls ++ before, ?_⟩
    rw [left, same, List.append_assoc]
  | close _ ih =>
    rw [outcome_run_act, outcome_run_act, solo.close wf, solo'.close wf]
    exact ih { h with disk := d } { h' with disk := d } (t := t) (.outside rfl) (.outside rfl) environment

end Job

end ProcessorBench
