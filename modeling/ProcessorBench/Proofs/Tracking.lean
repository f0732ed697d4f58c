import ProcessorBench.Proofs.Relocation
import ProcessorBench.Proofs.Siblings
import ProcessorBench.Suite.Pool

/-!
# A job among others

A job that works in workspaces of its own does what it does alone, whatever others do meanwhile in theirs. What
carries the proof is that the job and the same job alone are similar at any time (`Job.Tracks`), and that what a job
changes is at no place where another one has its workspace (`Job.Tracks.step`).
-/

namespace ProcessorBench

/-! ## The host that jobs share -/

/-- There is room for a workspace on a host: one can be reserved, and this is its site. -/
structure Host.Room (h : Host) (s : Site) : Prop where
  base : s.base = h.disk.tree
  ends (name : String) : Path.isName name = true → (Workspace.named h name).root.EndsIn s.start name
  size : s.name.utf8ByteSize = 14
  reserved : Workspace.reserve.outcome h =
    (.ok s.workspace, { h with disk := h.disk.put (some (.dir [])) s.location })

/-- A host that jobs share, and on which everything is kept that was there at first. -/
structure Host.Shares (h h' : Host) : Prop where
  kept : h.disk.tree.KeptIn h'.disk.tree
  wellFormed : h'.disk.tree.WellFormed
  workingDirectory : h'.disk.workingDirectory = h.disk.workingDirectory
  environment : h'.environment = h.environment

namespace Host

variable {h h' : Host} {s : Site}

/-- Where a workspace can be reserved, there is a name for it that nothing has. -/
theorem exists_free {w : Workspace} (has : (Workspace.reserve.outcome h).1 = .ok w) :
    ∃ number, h.disk.exists? (Workspace.named h (Workspace.nameOf number)).root = false := by
  obtain ⟨number, name⟩ := Workspace.firstFree_eq_nameOf
    (fun name => h.disk.exists? (Workspace.named h name).root) Workspace.nameCount 0
  refine ⟨number, ?_⟩
  rw [Workspace.reserve_eq, name, Workspace.reserveAs_outcome, Disk.createDir_run] at has
  unfold Disk.exists? Disk.lookup
  cases located : h.disk.locate (Workspace.named h (Workspace.nameOf number)).root with
  | error fault => rfl
  | ok l =>
    rw [located] at has
    simp only at has
    rw [ok_bind]
    cases found : h.disk.tree.at? l with
    | none => rfl
    | some u =>
      rw [found] at has
      cases has

/-- Where a workspace can be reserved there is room for a site. -/
theorem exists_room {w : Workspace} (has : (Workspace.reserve.outcome h).1 = .ok w) : ∃ s, h.Room s := by
  obtain ⟨number, name⟩ := Workspace.firstFree_eq_nameOf
    (fun name => h.disk.exists? (Workspace.named h name).root) Workspace.nameCount 0
  rw [Workspace.reserve_eq, name] at has
  rcases Workspace.reserveAs_spec (Workspace.isName_nameOf number) h with
    failed | ⟨s, base, _, name', ends, done⟩
  · rw [failed] at has
    cases has
  · refine ⟨s, base, ends, ?_, ?_⟩
    · rw [name', Workspace.utf8ByteSize_nameOf]
    · rw [Workspace.reserve_eq, name, done]

/-- Whoever is alone on a host with the same disk and environment gets the same workspace. -/
theorem Room.reserve (room : h.Room s) (disk : h'.disk = h.disk) (environment : h'.environment = h.environment) :
    Workspace.reserve.outcome h' =
      (.ok s.workspace, { h' with disk := h.disk.put (some (.dir [])) s.location }) := by
  obtain ⟨same, same'⟩ := Workspace.reserve_congr h h' disk.symm environment.symm
  rw [room.reserved] at same same'
  exact Prod.ext same same'

/-- A host shares itself. -/
theorem Shares.refl (wf : h.disk.tree.WellFormed) : h.Shares h := ⟨.refl _, wf, rfl, rfl⟩

/-- Workspaces have the same names on hosts that are shared. -/
theorem Shares.named (shares : h.Shares h') (name : String) : Workspace.named h' name = Workspace.named h name := by
  unfold Workspace.named Workspace.parentOf Disk.workingPath Host.temporaryDir Host.valueOf?
  rw [shares.workingDirectory, shares.environment]

/-- Something is put at a site, or removed from it. -/
theorem Shares.put (shares : h.Shares h') (base : s.base = h.disk.tree) {x : Option FileTree}
    (wf : ∀ u, x = some u → u.WellFormed) (calls : List CompilerCall) :
    h.Shares { h' with disk := h'.disk.put x s.location, calls := calls } := by
  have kept : s.base.KeptIn h'.disk.tree := base ▸ shares.kept
  obtain ⟨entries, isDir⟩ := s.exists_dir kept
  exact ⟨base ▸ kept.put s.free isDir x, shares.wellFormed.put s.ends.named wf s.here,
    shares.workingDirectory, shares.environment⟩

/-- What a site is built on is kept on hosts that are shared. -/
theorem Shares.kept_base (shares : h.Shares h') (base : s.base = h.disk.tree) : s.base.KeptIn h'.disk.tree :=
  base ▸ shares.kept

/-- All names of workspaces lead to the same directory, and are equally long. -/
theorem Room.sibling (room : h.Room s) (shares : h.Shares h') (number : Nat) :
    (Workspace.named h' (Workspace.nameOf number)).root.EndsIn s.start (Workspace.nameOf number) ∧
      (Workspace.nameOf number).utf8ByteSize = s.name.utf8ByteSize := by
  rw [shares.named, room.size, Workspace.utf8ByteSize_nameOf]
  exact ⟨room.ends _ (Workspace.isName_nameOf number), rfl⟩

/-- Reserving a workspace under a name that nothing has on a host that jobs share. -/
theorem Room.reserveAs (room : h.Room s) (shares : h.Shares h') (number : Nat)
    (free : h'.disk.exists? (Workspace.named h' (Workspace.nameOf number)).root = false) :
    ∃ s' : Site, s'.base = h.disk.tree ∧ s'.Twin s ∧ h'.disk.tree.at? s'.location = none ∧
      (Workspace.reserveAs (Workspace.nameOf number)).outcome h' =
        (.ok s'.workspace, { h' with disk := h'.disk.put (some (.dir [])) s'.location }) := by
  obtain ⟨ends, size⟩ := room.sibling shares number
  obtain ⟨s', base, twin, missing, done⟩ := Workspace.reserveAs_sibling ends size
    (Workspace.noZero_nameOf number) (shares.kept_base room.base) free
  exact ⟨s', base.trans room.base, twin, missing, done⟩

/-- There is a name for another workspace while there is nothing on the host that was not there at first. -/
theorem Room.exists_number (room : h.Room s) (wf : h.disk.tree.WellFormed) (shares : h.Shares h')
    (bare : ∀ l, (h'.disk.tree.at? l).isSome = true → (h.disk.tree.at? l).isSome = true) :
    ∃ number, h'.disk.exists? (Workspace.named h' (Workspace.nameOf number)).root = false := by
  obtain ⟨number, free⟩ := exists_free (congrArg Prod.fst room.reserved)
  obtain ⟨ends, size⟩ := room.sibling (.refl wf) number
  obtain ⟨ends', _⟩ := room.sibling shares number
  have noZero := Workspace.noZero_nameOf number
  refine ⟨number, ?_⟩
  rw [Workspace.exists?_sibling ends size noZero (room.base ▸ .refl _)] at free
  rw [Workspace.exists?_sibling ends' size noZero (shares.kept_base room.base)]
  exact Bool.eq_false_iff.mpr fun taken => Bool.eq_false_iff.mp free (bare _ taken)

end Host

/-! ## One job among others -/

namespace Job

variable {ε α : Type} {h : Host} {Q : Except ε α → Except ε α → Prop} {own : Except ε α} {left : Nat}
  {disk disk' : Disk} {site site' : Option Site} {job : Job ε α} {s s₀ : Site}

/-- How many steps a job takes when it is alone on a host. -/
def length : Job ε α → Host → Nat
  | .done _, _ => 0
  | .act step next, h => (next (step.outcome h).1).length (step.outcome h).2 + 1
  | .reserve next, h =>
    (next (Workspace.reserve.outcome h).1).length (Workspace.reserve.outcome h).2 + 1

/-- A job is tracked by a similar one that is alone on a host, and that gives the result `own` there after a number
of steps. The site is that of the workspace that the job has, if it has one. -/
def Tracks (h : Host) (Q : Except ε α → Except ε α → Prop) (own : Except ε α) (left : Nat) (disk : Disk)
    (site : Option Site) (job : Job ε α) : Prop :=
  ∃ (at_ : Option (Site × Site)) (job' : Job ε α) (h' : Host) (t : FileTree),
    site = at_.map (·.1) ∧ Similar h.disk.tree Q at_ job job' ∧
    (∀ s ∈ site, s.base = h.disk.tree ∧ s.Holds disk t) ∧ Site.Solo h.disk (at_.map (·.2)) t h' ∧
    h'.environment = h.environment ∧ (job'.run.outcome h').1 = own ∧ job'.length h' = left

/-- A job that has no workspace yet. -/
theorem tracks_self (similar : Similar h.disk.tree Q none job job) (disk : Disk) :
    Tracks h Q (job.run.outcome h).1 (job.length h) disk none job :=
  ⟨none, job, h, default, rfl, similar, nofun, .outside rfl, rfl, rfl, rfl⟩

/-- A job that is done has come to what it comes to alone. -/
theorem Tracks.done {r : Except ε α} (tracks : Tracks h Q own left disk site (.done r)) : Q r own := by
  obtain ⟨at_, job', h', t, _, similar, _, _, _, rfl, _⟩ := tracks
  cases similar with
  | done related =>
    rw [outcome_run_done]
    exact related

/-- A job holds the site that it has been given. -/
theorem Tracks.holds (tracks : Tracks h Q own left disk site job) :
    ∀ s ∈ site, s.base = h.disk.tree ∧ ∃ t, s.Holds disk t := by
  obtain ⟨_, _, _, t, _, _, holds, _⟩ := tracks
  intro s mem
  exact ⟨(holds s mem).1, t, (holds s mem).2⟩

/-- Another disk on which the workspace holds what it held. -/
theorem Tracks.frame (tracks : Tracks h Q own left disk site job)
    (same : ∀ s ∈ site, ∀ t, s.base = h.disk.tree → s.Holds disk t → s.Holds disk' t) :
    Tracks h Q own left disk' site job := by
  obtain ⟨at_, job', h', t, is_, similar, holds, rest⟩ := tracks
  refine ⟨at_, job', h', t, is_, similar, fun s mem => ?_, rest⟩
  obtain ⟨base, holds⟩ := holds s mem
  exact ⟨base, same s mem t base holds⟩

/-- A job that can take no step if a new workspace is to get a name. -/
def Waits (name : String) (h : Host) : Job ε α → Prop
  | .done _ => True
  | .act .. => False
  | .reserve _ => h.disk.exists? (Workspace.named h name).root = true

/-- A job that can only make a workspace has none. -/
theorem Tracks.outside (tracks : Tracks h Q own left disk site job) {name : String} {H : Host}
    (waits : job.Waits name H) : site = none := by
  obtain ⟨at_, _, _, _, rfl, similar, _⟩ := tracks
  cases similar with
  | done => rfl
  | reserve => rfl
  | act => cases waits
  | close => cases waits

/-- What a step of a job that had one workspace, and now has another one, means for all others. -/
structure Spares (base : FileTree) (site site' : Option Site) (disk disk' : Disk) : Prop where
  /-- Workspaces elsewhere hold what they held. -/
  holds (s : Site) (t : FileTree) : s.base = base → (∀ u ∈ site, u.location ≠ s.location) →
    s.Holds disk t → s.Holds disk' t
  /-- The new workspace is elsewhere. -/
  apart (s : Site) (t : FileTree) : s.base = base → (∀ u ∈ site, u.location ≠ s.location) →
    s.Holds disk t → ∀ u ∈ site', u.location ≠ s.location
  /-- Nothing has been made outside. -/
  made (l : Location) : (disk'.tree.at? l).isSome = true → (base.at? l).isSome = true ∨
    (∃ u ∈ site', u.location <+: l) ∨
      ((∀ u ∈ site, ¬ u.location <+: l) ∧ (disk.tree.at? l).isSome = true)

/-- Who does nothing spares all other sites. -/
theorem spares_refl (base : FileTree) (disk : Disk) : Spares base none none disk disk :=
  ⟨fun _ _ _ _ holds => holds, nofun, fun _ has => .inr (.inr ⟨nofun, has⟩)⟩

/-- Something is put at a place where nobody else has a workspace. -/
theorem spares_put {base : FileTree} (same : s.base = base) (kept : s.base.KeptIn disk.tree)
    {x : Option FileTree} (wf : ∀ u, x = some u → u.WellFormed)
    (mine : ∀ (other : Site) (t : FileTree), (∀ u ∈ site, u.location ≠ other.location) →
      other.Holds disk t → s.location ≠ other.location)
    (before : ∀ u ∈ site, u = s) (after : site' = if x.isSome then some s else none) :
    Spares base site site' disk (disk.put x s.location) := by
  subst after
  refine ⟨fun other t base' apart holds => ?_, fun other t _ apart holds u mem => ?_, fun l has => ?_⟩
  · exact holds.put_apart (same.trans base'.symm) (mine other t apart holds) wf
  · split at mem
    · cases mem
      exact mine other t apart holds
    · cases mem
  · rcases s.isSome_at?_put kept has with there | ⟨below, has⟩ | ⟨elsewhere, has⟩
    · exact .inl (same ▸ there)
    · refine .inr (.inl ⟨s, ?_, below⟩)
      rw [if_pos has]
      rfl
    · refine .inr (.inr ⟨fun u mem => ?_, has⟩)
      rw [before u mem]
      exact elsewhere

/-- What a step makes of a job that had a workspace at a site, or none, and a number of steps before it: the job is
tracked still, with fewer steps before it if it did not have to wait, and the other workspaces are spared. -/
def Advances (h : Host) (Q : Except ε α → Except ε α → Prop) (own : Except ε α) (left : Nat) (site : Option Site)
    (H : Host) (waits : Prop) (after : Job ε α × Host) : Prop :=
  ∃ site' left', h.Shares after.2 ∧ Tracks h Q own left' after.2.disk site' after.1 ∧
    Spares h.disk.tree site site' H.disk after.2.disk ∧ (waits ∨ left' < left)

section
variable {H h' : Host} {waits : Prop}

/-- A job gets a workspace, and the similar one gets the one that it gets when it is alone. -/
theorem advances_reserve (room : h.Room s₀) (wf : h.disk.tree.WellFormed) (shares : h.Shares H)
    {next next' : Except CompileError Workspace → Job ε α}
    (granted : ∀ s s' : Site, s.base = h.disk.tree → s'.base = h.disk.tree → s.Twin s' →
      Similar h.disk.tree Q (some (s, s')) (next (.ok s.workspace)) (next' (.ok s'.workspace)))
    (disk : h'.disk = h.disk) (environment : h'.environment = h.environment) (number : Nat)
    (free : H.disk.exists? (Workspace.named H (Workspace.nameOf number)).root = false) :
    Advances h Q ((Job.reserve next').run.outcome h').1 ((Job.reserve next').length h') none H waits
      ((Job.reserve next).step (Workspace.nameOf number) H) := by
  obtain ⟨s, base, twin, missing, done⟩ := room.reserveAs shares number free
  have stepped : (Job.reserve next).step (Workspace.nameOf number) H =
      (next (.ok s.workspace), { H with disk := H.disk.put (some (.dir [])) s.location }) := by
    rw [Job.step, if_neg (by simp [free]), done]
  have empty := FileTree.wellFormed_some FileTree.wellFormed_empty
  have kept := shares.kept_base base
  have kept₀ : s₀.base.KeptIn h.disk.tree := room.base ▸ .refl _
  -- Nobody else has a workspace there, since there was nothing.
  have apart (other : Site) (t : FileTree) (holds : other.Holds H.disk t) : s.location ≠ other.location := by
    intro same
    rw [same, holds.has] at missing
    cases missing
  rw [outcome_run_reserve, Job.length, room.reserve disk environment, stepped]
  refine ⟨some s, _, shares.put base empty H.calls, ⟨some (s, s₀), _,
    { h' with disk := h.disk.put (some (.dir [])) s₀.location }, .dir [], rfl,
    granted s s₀ base room.base twin, ?_, ?_, environment, rfl, rfl⟩, ?_, .inr (Nat.lt_succ_self _)⟩
  · rintro _ ⟨⟩
    exact ⟨base, s.holds_put kept shares.wellFormed rfl FileTree.wellFormed_empty⟩
  · exact .inside room.base (s₀.holds_put kept₀ wf rfl FileTree.wellFormed_empty) rfl
  · exact spares_put base kept empty (fun other t _ => apart other t) nofun rfl

/-- A job does something in its workspace, and the similar one does the same in its own. -/
theorem advances_act (shares : h.Shares H) {s' : Site} {t : FileTree} {ε₁ ε₂ α₁ α₂ : Type}
    {Q' : Except ε₁ α₁ → Except ε₂ α₂ → Prop} {step : HostStep ε₁ α₁} {step' : HostStep ε₂ α₂}
    {next : Except ε₁ α₁ → Job ε α} {next' : Except ε₂ α₂ → Job ε α}
    (alike : s.Alike s' (fun _ => True) Q' step step')
    (rest : ∀ r r', Q' r r' → Similar h.disk.tree Q (some (s, s')) (next r) (next' r'))
    (base : s.base = h.disk.tree) (holds : s.Holds H.disk t) (solo : Site.Solo h.disk (some s') t h')
    (environment : h'.environment = h.environment) (name : String) :
    Advances h Q ((Job.act step' next').run.outcome h').1 ((Job.act step' next').length h') (some s) H waits
      ((Job.act step next).step name H) := by
  obtain ⟨u, isDir, wf, related, moves, moves'⟩ := alike holds solo.holds
  have stepped : (Job.act step next).step name H = (next (step.outcome H).1, (step.outcome H).2) := rfl
  have wellFormed := FileTree.wellFormed_some wf
  have later := moves.holds holds isDir wf
  rw [outcome_run_act, stepped]
  refine ⟨some s, _, ?_, ⟨some (s, s'), _, _, u, rfl, rest _ _ related, ?_, solo.moves moves' isDir wf,
    moves'.environment.trans environment, rfl, rfl⟩, ?_, .inr (Nat.lt_succ_self _)⟩
  · obtain ⟨calls, _, same⟩ := moves
    rw [same]
    exact shares.put base wellFormed _
  · rintro _ ⟨⟩
    exact ⟨base, later⟩
  · obtain ⟨calls, _, same⟩ := moves
    rw [same]
    exact spares_put base holds.kept wellFormed (fun _ _ apart _ => apart s rfl) (by simp) rfl

/-- A job removes its workspace, and so does the similar one, which leaves the host as it was at first. -/
theorem advances_close (wf : h.disk.tree.WellFormed) (shares : h.Shares H) {s' : Site} {t : FileTree}
    {next next' : Except CompileError Unit → Job ε α}
    (rest : Similar h.disk.tree Q none (next (.ok ())) (next' (.ok ())))
    (base : s.base = h.disk.tree) (holds : s.Holds H.disk t) (solo : Site.Solo h.disk (some s') t h')
    (environment : h'.environment = h.environment) (name : String) :
    Advances h Q ((Job.act s'.workspace.close next').run.outcome h').1
      ((Job.act s'.workspace.close next').length h') (some s) H waits
      ((Job.act s.workspace.close next).step name H) := by
  have nothing : ∀ u : FileTree, none = some u → u.WellFormed := fun _ same => by cases same
  have stepped : (Job.act s.workspace.close next).step name H =
      (next (.ok ()), { H with disk := H.disk.put none s.location }) := by
    rw [Job.step, holds.close]
  rw [outcome_run_act, Job.length, solo.close wf, stepped]
  refine ⟨none, _, shares.put base nothing H.calls, ⟨none, _, { h' with disk := h.disk }, t, rfl, rest, nofun,
    .outside rfl, environment, rfl, rfl⟩, ?_, .inr (Nat.lt_succ_self _)⟩
  exact spares_put base holds.kept nothing (fun _ _ apart _ => apart s rfl) (by simp) rfl

end

/-- **A step of a job among others**: the job is tracked still, and has fewer steps before it, unless it had to wait.
The other workspaces are spared. -/
theorem Tracks.step {H : Host} (room : h.Room s₀) (wf : h.disk.tree.WellFormed) (shares : h.Shares H)
    (tracks : Tracks h Q own left H.disk site job) (number : Nat) :
    Advances h Q own left site H (job.Waits (Workspace.nameOf number) H)
      (job.step (Workspace.nameOf number) H) := by
  obtain ⟨at_, job', h', t, rfl, similar, holds, solo, environment, rfl, rfl⟩ := tracks
  cases similar with
  | done related =>
    exact ⟨none, _, shares, ⟨none, _, h', t, rfl, .done related, nofun, solo, environment, rfl, rfl⟩,
      spares_refl _ _, .inl trivial⟩
  | @reserve next next' refused granted =>
    cases taken : H.disk.exists? (Workspace.named H (Workspace.nameOf number)).root with
    | true =>
      have waits : (Job.reserve next).step (Workspace.nameOf number) H = (.reserve next, H) := by
        rw [Job.step, if_pos taken]
      rw [waits]
      exact ⟨none, _, shares, ⟨none, _, h', t, rfl, .reserve refused granted, nofun, solo, environment, rfl, rfl⟩,
        spares_refl _ _, .inl taken⟩
    | false =>
      cases solo with
      | outside disk => exact advances_reserve room wf shares granted disk environment number taken
  | @act s s' _ _ _ _ _ _ _ _ _ alike rest =>
    obtain ⟨base, holds⟩ := holds s rfl
    exact advances_act shares alike rest base holds solo environment _
  | @close s _ _ _ rest =>
    obtain ⟨base, holds⟩ := holds s rfl
    exact advances_close wf shares rest base holds solo environment _

end Job

end ProcessorBench
