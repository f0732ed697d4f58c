import ProcessorBench.Compilation.Job
import ProcessorBench.Proofs.Sites

/-!
# Jobs in twin workspaces

Two steps are alike on two sites (`Site.Alike`) if they have related results and change the trees of the sites in
the same way, and nothing else. Jobs of such steps are alike too, and their runs (`Job.Alike.run`). What is done
in a workspace before and after the compiler is asked is alike in any two workspaces whose paths are equally
long, since only the length of a path can keep a file from being written.

A step that is alike to itself on a site changes nothing but that site.
-/

namespace ProcessorBench

/-- Two results are related, or two steps have failed. -/
inductive Both {ε ε' α β : Type} (R : α → β → Prop) : Except ε α → Except ε' β → Prop where
  | ok {a : α} {b : β} (related : R a b) : Both R (.ok a) (.ok b)
  | error (e : ε) (e' : ε') : Both R (.error e) (.error e')

section
variable {ε ε' α β : Type} {s s' : Site} {P : CompilerCall → Prop} {h h' : Host} {t u : FileTree}
  {Q : Except ε α → Except ε' β → Prop}

namespace Site

/-- A host with another tree at a site, and with more calls, all of one kind. -/
def Moves (s : Site) (P : CompilerCall → Prop) (h : Host) (u : FileTree) (h' : Host) : Prop :=
  ∃ calls, (∀ c ∈ calls, P c) ∧
    h' = { h with disk := h.disk.put (some u) s.location, calls := calls ++ h.calls }

/-- Two steps are alike: whenever two sites have the same tree, their results are related, and they make the
same change to that tree, besides calls of one kind. -/
def Alike (s s' : Site) (P : CompilerCall → Prop) (Q : Except ε α → Except ε' β → Prop)
    (x : HostStep ε α) (y : HostStep ε' β) : Prop :=
  ∀ ⦃h h' : Host⦄ ⦃t : FileTree⦄, s.Holds h.disk t → s'.Holds h'.disk t →
    ∃ u : FileTree, u.isDir = true ∧ u.WellFormed ∧ Q (x.outcome h).1 (y.outcome h').1 ∧
      s.Moves P h u (x.outcome h).2 ∧ s'.Moves P h' u (y.outcome h').2

/-- Doing nothing moves nothing. -/
theorem Holds.moves (holds : s.Holds h.disk t) (P : CompilerCall → Prop) : s.Moves P h t h :=
  ⟨[], by simp, by rw [holds.put_self]; rfl⟩

/-- After a move the site holds its new tree. -/
theorem Moves.holds {h' : Host} (moves : s.Moves P h u h') (holds : s.Holds h.disk t)
    (isDir : u.isDir = true) (wf : u.WellFormed) : s.Holds h'.disk u := by
  obtain ⟨_, _, rfl⟩ := moves
  exact holds.put isDir wf

/-- Moves can be made one after the other. -/
theorem Moves.trans {h' h'' : Host} {v : FileTree} (first : s.Moves P h u h')
    (second : s.Moves P h' v h'') : s.Moves P h v h'' := by
  obtain ⟨calls, each, rfl⟩ := first
  obtain ⟨calls', each', rfl⟩ := second
  refine ⟨calls' ++ calls, ?_, ?_⟩
  · intro c mem
    exact (List.mem_append.mp mem).elim (each' c) (each c)
  · rw [Disk.put_put, List.append_assoc]

/-- Results that depend on nothing but the tree of a site. -/
theorem alike_read {f : Disk → Except ε α} {g : Disk → Except ε' β} (P : CompilerCall → Prop)
    (same : ∀ d d' t, s.Holds d t → s'.Holds d' t → Q (f d) (g d')) :
    s.Alike s' P Q (do HostStep.ofExcept (f (← HostStep.disk)))
      (do HostStep.ofExcept (g (← HostStep.disk))) := by
  intro h h' t holds holds'
  have outcome {ε₁ α₁ : Type} (f : Disk → Except ε₁ α₁) (h : Host) :
      HostStep.outcome (do HostStep.ofExcept (f (← HostStep.disk))) h = (f h.disk, h) := by
    rw [HostStep.outcome_bind]
    exact HostStep.outcome_ofExcept _ h
  rw [outcome, outcome]
  exact ⟨t, holds.isDir, holds.wellFormed_tree, same _ _ _ holds holds', holds.moves P,
    holds'.moves P⟩

/-- Steps on the disk that change the sites in the same way. -/
theorem alike_doing {x y : DiskStep Unit} (P : CompilerCall → Prop) (action : FileAction)
    (p q : Path)
    (same : ∀ d d' t, s.Holds d t → s'.Holds d' t → s.Changes s' d d' (x d) (y d')) :
    s.Alike s' P (Both fun _ _ => True) (HostStep.doing action p x) (HostStep.doing action q y) := by
  intro h h' t holds holds'
  have changes := same _ _ _ holds holds'
  unfold HostStep.outcome HostStep.doing HostStep.onDisk
  generalize x h.disk = r at changes
  generalize y h'.disk = r' at changes
  cases changes with
  | @ok u isDir wf =>
    exact ⟨u, isDir, wf, .ok trivial, ⟨[], by simp, rfl⟩, ⟨[], by simp, rfl⟩⟩
  | @error u isDir wf fault fault' =>
    exact ⟨u, isDir, wf, .error _ _, ⟨[], by simp, rfl⟩, ⟨[], by simp, rfl⟩⟩

end Site

/-! ## Jobs of steps that are alike -/

namespace Job

/-- Two jobs are alike: they take steps that are alike, and none for a new workspace. -/
inductive Alike (s s' : Site) (P : CompilerCall → Prop) {ε ε' α β : Type}
    (Q : Except ε α → Except ε' β → Prop) : Job ε α → Job ε' β → Prop where
  | done {r : Except ε α} {r' : Except ε' β} (related : Q r r') : Alike s s' P Q (.done r) (.done r')
  | act {ε₁ ε₂ α₁ α₂ : Type} {Q' : Except ε₁ α₁ → Except ε₂ α₂ → Prop} {step : HostStep ε₁ α₁}
    {step' : HostStep ε₂ α₂} {next : Except ε₁ α₁ → Job ε α} {next' : Except ε₂ α₂ → Job ε' β}
    (alike : s.Alike s' P Q' step step')
    (rest : ∀ r r', Q' r r' → Alike s s' P Q (next r) (next' r')) :
    Alike s s' P Q (.act step next) (.act step' next')

/-- **Jobs that are alike** have runs that are alike. -/
theorem Alike.run {job : Job ε α} {job' : Job ε' β} (alike : Alike s s' P Q job job') :
    s.Alike s' P Q job.run job'.run := by
  induction alike with
  | done related =>
    intro h h' t holds holds'
    rw [outcome_run_done, outcome_run_done]
    exact ⟨t, holds.isDir, holds.wellFormed_tree, related, holds.moves P, holds'.moves P⟩
  | act alike _ ih =>
    intro h h' t holds holds'
    rw [outcome_run_act, outcome_run_act]
    obtain ⟨u, isDir, wf, related, moves, moves'⟩ := alike holds holds'
    obtain ⟨v, isDir', wf', related', later, later'⟩ := ih _ _ related
      (moves.holds holds isDir wf) (moves'.holds holds' isDir wf)
    exact ⟨v, isDir', wf', related', moves.trans later, moves'.trans later'⟩

/-- Jobs that are alike can be continued by ones that are alike. -/
theorem Alike.andThen {ε₁ ε₂ α₁ α₂ : Type} {Q' : Except ε₁ α₁ → Except ε₂ α₂ → Prop}
    {job : Job ε₁ α₁} {job' : Job ε₂ α₂} {k : Except ε₁ α₁ → Job ε α} {k' : Except ε₂ α₂ → Job ε' β}
    (first : Alike s s' P Q' job job') (rest : ∀ r r', Q' r r' → Alike s s' P Q (k r) (k' r')) :
    Alike s s' P Q (job.andThen k) (job'.andThen k') := by
  induction first with
  | done related => exact rest _ _ related
  | act alike _ ih => exact .act alike fun r r' related => ih r r' related

/-- Steps that are alike are jobs that are alike. -/
theorem Alike.ofStep {x : HostStep ε α} {y : HostStep ε' β} (alike : s.Alike s' P Q x y) :
    Alike s s' P Q (Job.ofStep x) (Job.ofStep y) :=
  .act alike fun _ _ related => .done related

section
variable {α₁ β₁ : Type} {R : α → β → Prop} {R' : α₁ → β₁ → Prop}

theorem Alike.pure {a : α} {b : β} (related : R a b) :
    Alike s s' P (Both R) (Pure.pure a : Job ε α) (Pure.pure b : Job ε' β) := .done (.ok related)

/-- Jobs that are alike as long as they succeed can be put together. -/
theorem Alike.bind {job : Job ε α} {job' : Job ε' β} {k : α → Job ε α₁} {k' : β → Job ε' β₁}
    (first : Alike s s' P (Both R) job job')
    (rest : ∀ a b, R a b → Alike s s' P (Both R') (k a) (k' b)) :
    Alike s s' P (Both R') (job >>= k) (job' >>= k') := by
  apply first.andThen
  intro r r' related
  cases related with
  | ok related => exact rest _ _ related
  | error e e' => exact .done (.error e e')

/-- Jobs that are alike can be repeated. -/
theorem Alike.forM {as : List α} {bs : List β} {f : α → Job ε PUnit} {f' : β → Job ε' PUnit}
    (each : List.Forall₂ (fun a b => Alike s s' P (Both fun _ _ => True) (f a) (f' b)) as bs) :
    Alike s s' P (Both fun _ _ => True) (as.forM f) (bs.forM f') := by
  induction each with
  | nil => exact .pure trivial
  | cons first _ ih => exact .bind first fun _ _ _ => ih

end

end Job

end

/-! ## Files in twin workspaces -/

/-- The artifacts have places that are ways along names, as those of all artifacts that have been collected. -/
def ArtifactSet.IsPlain (set : ArtifactSet) : Prop :=
  ∀ entry ∈ set.entries, entry.2.location ≠ [] ∧ ∀ n ∈ entry.2.location, Path.isName n = true

/-- The workspace whose directory is a site. -/
def Site.workspace (s : Site) : Workspace := ⟨s.root⟩

/-- Two paths lead along the same names from two sites. -/
def Site.Follow (s s' : Site) (p p' : Path) : Prop :=
  ∃ names, (∀ n ∈ names, Path.isName n = true) ∧ p = s.root.joinAll names ∧
    p' = s'.root.joinAll names

/-- Going on along the same names. -/
theorem Site.Follow.join_ofNames {s s' : Site} {p p' : Path} (follow : s.Follow s' p p')
    {place : Location} (nonempty : place ≠ []) (named : ∀ n ∈ place, Path.isName n = true) :
    s.Follow s' (p.join (.ofNames place)) (p'.join (.ofNames place)) := by
  obtain ⟨names, named', rfl, rfl⟩ := follow
  obtain ⟨_, _, ends⟩ := s.ends.joinAll named'
  obtain ⟨_, _, ends'⟩ := s'.ends.joinAll named'
  refine ⟨names ++ place, ?_, ?_, ?_⟩
  · intro n mem
    exact (List.mem_append.mp mem).elim (named' n) (named n)
  · rw [ends.join_ofNames nonempty named, ← Path.joinAll_append]
  · rw [ends'.join_ofNames nonempty named, ← Path.joinAll_append]

namespace Job

variable {s s' : Site} {p p' : Path} {names : List String} {name : String}

/-- Making a directory is alike in twin workspaces. -/
theorem alike_createDir (twin : s.Twin s') (P : CompilerCall → Prop)
    (named : ∀ n ∈ names ++ [name], Path.isName n = true) :
    Alike s s' P (Both fun _ _ => True)
      (ofStep (HostStep.doing .create p (Disk.createDir (s.root.joinAll (names ++ [name])))))
      (ofStep (HostStep.doing .create p' (Disk.createDir (s'.root.joinAll (names ++ [name]))))) :=
  .ofStep (Site.alike_doing P _ p p' fun _ _ _ => Site.changes_createDir twin named)

/-- Writing a file is alike in twin workspaces. -/
theorem alike_writeFile (twin : s.Twin s') (P : CompilerCall → Prop)
    (named : ∀ n ∈ names ++ [name], Path.isName n = true) (content : Bytes) :
    Alike s s' P (Both fun _ _ => True) (writeFile (s.root.joinAll (names ++ [name])) content)
      (writeFile (s'.root.joinAll (names ++ [name])) content) := by
  have named' : ∀ n ∈ names, Path.isName n = true := fun n mem =>
    named n (List.mem_append_left _ mem)
  have last : Path.isName name = true := named name (by simp)
  unfold writeFile createParent
  rw [s.ends.parent?_joinAll named' last, s'.ends.parent?_joinAll named' last]
  refine .bind (R := fun _ _ => True) ?_ fun _ _ _ => ?_
  · exact .ofStep (Site.alike_doing P _ _ _ fun _ _ _ => Site.changes_createDirAll twin named')
  · exact .ofStep (Site.alike_doing P _ _ _ fun _ _ _ => Site.changes_write twin named content)

/-- A file whose place is given as a path. -/
theorem alike_writeFile_join (twin : s.Twin s') (P : CompilerCall → Prop) (follow : s.Follow s' p p')
    {place : Location} (nonempty : place ≠ []) (named : ∀ n ∈ place, Path.isName n = true)
    (content : Bytes) :
    Alike s s' P (Both fun _ _ => True) (writeFile (p.join (.ofNames place)) content)
      (writeFile (p'.join (.ofNames place)) content) := by
  obtain ⟨names, named', rfl, rfl⟩ := follow
  obtain ⟨_, _, ends⟩ := s.ends.joinAll named'
  obtain ⟨_, _, ends'⟩ := s'.ends.joinAll named'
  rw [ends.join_ofNames nonempty named, ends'.join_ofNames nonempty named, ← Path.joinAll_append,
    ← Path.joinAll_append]
  obtain ⟨front, last, rfl⟩ := (List.eq_nil_or_concat' place).resolve_left nonempty
  rw [← List.append_assoc]
  apply alike_writeFile twin P
  intro n mem
  rw [List.append_assoc] at mem
  exact (List.mem_append.mp mem).elim (named' n) (named n)

/-- Making all directories is alike in twin workspaces. -/
theorem alike_createDirs (twin : s.Twin s') (P : CompilerCall → Prop) :
    Alike s s' P (Both fun _ _ => True) (createDirs s.workspace) (createDirs s'.workspace) := by
  have each (name : String) (named : Path.isName name = true) :
      Alike s s' P (Both fun _ _ => True)
        (ofStep (HostStep.doing .create (s.root.join ⟨name⟩) (Disk.createDir (s.root.join ⟨name⟩))))
        (ofStep (HostStep.doing .create (s'.root.join ⟨name⟩)
          (Disk.createDir (s'.root.join ⟨name⟩)))) :=
    @alike_createDir s s' _ _ [] name twin P (by simpa using named)
  refine .forM ?_
  exact .cons (each "classes" (by decide)) (.cons (each "sources" (by decide))
    (.cons (each "generated" (by decide)) (.cons (each "processor" (by decide)) .nil)))

/-- Writing a source is alike in twin workspaces. -/
theorem alike_writeSource {w w' : Workspace} (twin : s.Twin s') (P : CompilerCall → Prop)
    (follow : s.Follow s' w.sourcesDir w'.sourcesDir) (unit source : String) :
    Alike s s' P (Both (s.Follow s')) (writeSource w unit source) (writeSource w' unit source) := by
  unfold writeSource
  cases found : UnitName.path? unit "java" with
  | none => exact .done (.error _ _)
  | some place =>
    obtain ⟨front, last, rfl, named⟩ := UnitName.exists_names_of_path? found (by decide)
    have nonempty : front ++ [last] ≠ [] := by simp
    refine .bind (alike_writeFile_join twin P follow nonempty named _) fun _ _ _ => .pure ?_
    exact follow.join_ofNames nonempty named

/-- Writing artifacts is alike in twin workspaces. -/
theorem alike_writeTo (twin : s.Twin s') (P : CompilerCall → Prop) (follow : s.Follow s' p p')
    {set : ArtifactSet} (plain : set.IsPlain) :
    Alike s s' P (Both fun _ _ => True) (writeTo set p) (writeTo set p') := by
  refine .forM (List.forall₂_same.mpr fun entry mem => ?_)
  obtain ⟨nonempty, named⟩ := plain entry mem
  exact alike_writeFile_join twin P follow nonempty named _

end Job

end ProcessorBench
