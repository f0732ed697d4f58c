import ProcessorBench.Proofs.Twins

/-!
# Workspaces as sites

A workspace that has been reserved is a site in the tree as it was before (`TemporaryDirs.Lawful.reserve_spec`), if its
directory comes from where it ought to (`TemporaryDirs.Lawful`). Its directories are empty when they have been created.
Whatever has happened to the disk since, closing a workspace removes what is at its place, or fails and changes nothing
elsewhere (`TemporaryDirs.Lawful.close_spec`).
-/

namespace ProcessorBench

open Disk (follow turn advance checkPath)

/-! ## Sites inside sites -/

namespace FileTree

variable {base t : FileTree} {here : Location} {name : String} {entries entries' : List DirEntry}

/-- A tree with an empty directory in a new place is kept where the directory is kept. -/
theorem KeptIn.put_dir (kept : base.KeptIn t) (above : base.at? here = some (.dir entries))
    (has : t.at? (here ++ [name]) = some (.dir entries')) :
    (base.put (some (.dir [])) (here ++ [name])).KeptIn t := kept.put_left above has (keptIn_dir entries')

end FileTree

namespace Site

variable {s : Site} {d : Disk} {h : Host} {t u : FileTree} {name : String} {entries : List DirEntry}

/-- The root of a site leads to it. -/
theorem leads_root (kept : s.base.KeptIn t) : follow t [] s.root.segments = .ok s.location := by
  obtain ⟨entries, found⟩ := s.exists_dir kept
  rw [s.ends.segments, Disk.follow_append, Disk.follow_of_keptIn kept s.leads]
  show follow t s.here [s.name] = _
  rw [Disk.follow_cons, Disk.advance_name s.ends.named found, if_neg (not_lt.mpr s.fits)]
  rfl

/-- A directory in a site, as a site in the tree in which the site is empty. -/
def inner (s : Site) (name : String) (named : Path.isName name = true)
    (possible : checkPath (s.root.join ⟨name⟩) = .ok ()) (fits : name.utf8ByteSize ≤ Disk.nameLimit) :
    Site where
  root := s.root.join ⟨name⟩
  base := s.base.put (some (.dir [])) s.location
  here := s.location
  name := name
  start := s.root.text
  entries := []
  ends := s.ends.join named
  possible := possible
  leads := leads_root ((FileTree.KeptIn.refl s.base).put s.free s.isDir _)
  isDir := FileTree.at?_put_self s.isDir _ s.name
  fits := fits
  free := (FileTree.at?_put_below s.isDir s.name _ [name]).trans rfl

section
variable {named : Path.isName name = true} {possible : checkPath (s.root.join ⟨name⟩) = .ok ()}
  {fits : name.utf8ByteSize ≤ Disk.nameLimit}

/-- A directory in a site is a site of its own. -/
theorem Holds.inner (holds : s.Holds d t) (has : t.at? [name] = some (.dir entries)) :
    (s.inner name named possible fits).Holds d (.dir entries) := by
  obtain ⟨_, rfl⟩ := FileTree.isDir_iff.mp holds.isDir
  refine ⟨holds.kept.put_dir s.isDir holds.has, ?_, rfl, holds.wellFormed⟩
  show d.tree.at? (s.location ++ [name]) = _
  rw [holds.at?, has]

/-- **A job inside a site** changes nothing but the directory that it works in. -/
theorem Holds.inner_run {ε α : Type} {Q : Except ε α → Except ε α → Prop} {job : Job ε α}
    (holds : s.Holds h.disk t) (has : t.at? [name] = some (.dir entries))
    (alike : Job.Alike (s.inner name named possible fits) (s.inner name named possible fits)
      (fun _ => False) Q job job) :
    ∃ v : FileTree, v.isDir = true ∧
      s.Holds (h.disk.put (some (t.put (some v) [name])) s.location) (t.put (some v) [name]) ∧
      (job.run.outcome h).2 =
        { h with disk := h.disk.put (some (t.put (some v) [name])) s.location } := by
  have inside : (s.inner name named possible fits).Holds h.disk (.dir entries) := holds.inner has
  obtain ⟨v, isDir, wf, _, ⟨calls, none, moved⟩, _⟩ := alike.run inside inside
  have wf' : (t.put (some v) ([] ++ [name])).WellFormed :=
    holds.wellFormed_tree.put named (FileTree.wellFormed_some wf) []
  refine ⟨v, isDir, holds.put (isDir_put holds.isDir _ _) wf', ?_⟩
  have quiet : calls = [] := List.eq_nil_iff_forall_not_mem.mpr fun c mem => none c mem
  rw [moved, quiet]
  have below : [name] ≠ [] := by simp
  rw [← holds.put_below (some v) below]
  rfl

end

/-! ## Closing -/

/-- Where the path of a site leads, if it leads anywhere. -/
theorem eq_location_of_locate {l : Location} (located : d.locate s.root = .ok l) :
    l = s.location := by
  obtain ⟨_, _, leads⟩ := bind_eq_ok.mp located
  rw [Disk.start, if_pos s.ends.absolute] at leads
  have here := Disk.eq_foldl_of_follow (leads_root (FileTree.KeptIn.refl s.base))
  rw [Disk.eq_foldl_of_follow leads, here]

theorem close_run (s : Site) (h : Host) :
    s.workspace.close.outcome h =
      match h.disk.locate s.root with
      | .error _ => (.error (.io .delete s.root), h)
      | .ok l => match h.disk.tree.at? l with
        | some (.dir _) => (.ok (), { h with disk := h.disk.put none l })
        | _ => (.error (.io .delete s.root), h) := by
  rw [Workspace.close_eq, HostStep.outcome_doing, workspace, Disk.removeDirAll_run]
  cases h.disk.locate s.root with
  | error fault => rfl
  | ok l =>
    simp only
    rcases h.disk.tree.at? l with _ | (_ | _) <;> rfl

/-- The root of a site is located where it is. -/
theorem Holds.locate_root (holds : s.Holds d t) : d.locate s.root = .ok s.location := by
  have located := holds.locate (List.forall_mem_nil (Path.isName · = true))
  rw [reach, List.append_nil] at located
  show d.locate (s.root.joinAll []) = _
  rw [located]
  show ((checkPath s.root >>= fun _ => _ : Except FileFault Unit).map fun _ => s.location) = _
  rw [s.possible]
  rfl

/-- Removing a workspace removes its tree, and nothing else. -/
theorem Holds.close (holds : s.Holds h.disk t) :
    s.workspace.close.outcome h = (.ok (), { h with disk := h.disk.put none s.location }) := by
  obtain ⟨entries, rfl⟩ := FileTree.isDir_iff.mp holds.isDir
  rw [close_run, holds.locate_root]
  simp only
  rw [holds.has]

/-- The way to a path that ends with a name leads through a directory. -/
theorem exists_front_of_locate {p : Path} {start : String} {l : Location} (ends : p.EndsIn start name)
    (located : d.locate p = .ok l) :
    ∃ here entries, follow d.tree [] (Text.splitOn '/' start) = .ok here ∧
      d.tree.at? here = some (.dir entries) ∧ name.utf8ByteSize ≤ Disk.nameLimit ∧ l = here ++ [name] := by
  obtain ⟨_, _, leads⟩ := bind_eq_ok.mp located
  rw [Disk.start, if_pos ends.absolute, ends.segments, Disk.follow_append] at leads
  obtain ⟨here, before, leads⟩ := bind_eq_ok.mp leads
  obtain ⟨⟨entries, isDir⟩, last, next⟩ := Disk.follow_cons_eq_ok leads
  cases next
  rw [Disk.advance_name ends.named isDir] at last
  have fits : name.utf8ByteSize ≤ Disk.nameLimit := by
    by_contra long
    rw [if_pos (not_le.mp long)] at last
    cases last
  exact ⟨here, entries, before, isDir, fits, Disk.turn_name ends.named here⟩

/-- When what is at the place of a site has been removed, its path leads to nothing. -/
theorem exists?_put_none {l : Location} (located : d.locate s.root = .ok l) :
    (d.put none s.location).exists? s.root = false := by
  obtain ⟨here, _, _, above, _, same⟩ := exists_front_of_locate s.ends located
  rw [eq_location_of_locate located] at same
  have gone : (d.put none s.location).tree.at? s.location = none := by
    rw [same]
    exact FileTree.at?_put_self above none s.name
  unfold Disk.exists?
  cases located' : (d.put none s.location).locate s.root with
  | error fault =>
    rw [Disk.lookup, located']
    rfl
  | ok l' =>
    rw [Disk.lookup_of_locate located', eq_location_of_locate located', gone]
    rfl

/-! ## Creating -/

/-- A path that ends with a name and leads to nothing is that of a site. -/
theorem exists_of_locate {p : Path} {start : String} {l : Location} (ends : p.EndsIn start name)
    (located : d.locate p = .ok l) (free : d.tree.at? l = none) :
    ∃ s : Site, s.root = p ∧ s.base = d.tree ∧ s.location = l ∧ s.name = name ∧ s.start = start := by
  obtain ⟨_, possible, _⟩ := bind_eq_ok.mp located
  obtain ⟨here, entries, before, isDir, fits, rfl⟩ := exists_front_of_locate ends located
  exact ⟨⟨p, d.tree, here, name, start, entries, ends, possible, before, isDir, fits, free⟩,
    rfl, rfl, rfl, rfl, rfl⟩

/-- Creating a directory in a site, if it succeeds. -/
theorem Holds.createDir (holds : s.Holds h.disk t) (named : Path.isName name = true) :
    (∃ e, (HostStep.doing .create (s.root.join ⟨name⟩)
        (Disk.createDir (s.root.join ⟨name⟩))).outcome h = (.error e, h)) ∨
      checkPath (s.root.join ⟨name⟩) = .ok () ∧
        (HostStep.doing .create (s.root.join ⟨name⟩)
          (Disk.createDir (s.root.join ⟨name⟩))).outcome h =
          (.ok (), { h with disk := h.disk.put (some (t.put (some (.dir [])) [name])) s.location }) := by
  have each : ∀ n ∈ [name], Path.isName n = true := by simpa using named
  have below : [name] ≠ [] := List.cons_ne_nil name []
  have located := holds.locate each
  rw [Path.joinAll_singleton] at located
  rw [HostStep.outcome_doing, Disk.createDir_run, located]
  cases reached : s.reach t [name] with
  | error fault => exact .inl ⟨_, rfl⟩
  | ok =>
    obtain ⟨_, possible, _⟩ := bind_eq_ok.mp reached
    simp only [Except.map]
    rw [holds.at?]
    cases t.at? [name] with
    | some _ => exact .inl ⟨_, rfl⟩
    | none =>
      rw [holds.put_below _ below]
      exact .inr ⟨possible, rfl⟩

/-- The tree of a site with some empty directories. -/
def furnishing (t : FileTree) (names : List String) : FileTree :=
  names.foldl (fun t name => t.put (some (.dir [])) [name]) t

/-- Making the directories of a workspace makes all of them, or fails with some of them made. -/
theorem Holds.createDirs (holds : s.Holds h.disk t) (names : List String)
    (named : ∀ n ∈ names, Path.isName n = true) :
    (∃ e u, s.Holds (h.disk.put (some u) s.location) u ∧
      ((names.map fun name => s.root.join ⟨name⟩).forM fun dir =>
        HostStep.doing .create dir (Disk.createDir dir)).outcome h =
        (.error e, { h with disk := h.disk.put (some u) s.location })) ∨
      (∀ name ∈ names, checkPath (s.root.join ⟨name⟩) = .ok ()) ∧
        s.Holds (h.disk.put (some (furnishing t names)) s.location) (furnishing t names) ∧
        ((names.map fun name => s.root.join ⟨name⟩).forM fun dir =>
          HostStep.doing .create dir (Disk.createDir dir)).outcome h =
          (.ok (), { h with disk := h.disk.put (some (furnishing t names)) s.location }) := by
  -- Each directory is made in the tree that those before it have left.
  induction names generalizing h t with
  | nil =>
    refine .inr ⟨nofun, ?_, ?_⟩
    · rw [furnishing, List.foldl_nil, holds.put_self]
      exact holds
    · rw [furnishing, List.foldl_nil, holds.put_self]
      rfl
  | cons name names ih =>
    obtain ⟨first, named⟩ := List.forall_mem_cons.mp named
    have step : ((name :: names).map fun name => s.root.join ⟨name⟩).forM (fun dir =>
          HostStep.doing .create dir (Disk.createDir dir)) =
        HostStep.doing .create (s.root.join ⟨name⟩) (Disk.createDir (s.root.join ⟨name⟩)) >>=
          fun _ => (names.map fun name => s.root.join ⟨name⟩).forM fun dir =>
            HostStep.doing .create dir (Disk.createDir dir) := rfl
    rw [step, HostStep.outcome_bind]
    rcases holds.createDir first with ⟨e, failed⟩ | ⟨possible, done⟩
    · rw [failed]
      refine .inl ⟨e, t, ?_, ?_⟩
      · rw [holds.put_self]
        exact holds
      · rw [holds.put_self]
    · rw [done]
      simp only
      have wf : (t.put (some (.dir [])) ([] ++ [name])).WellFormed :=
        holds.wellFormed_tree.put first (FileTree.wellFormed_some FileTree.wellFormed_empty) []
      have holds' := holds.put (isDir_put holds.isDir (some (.dir [])) [name]) wf
      have rest := ih (h := { h with disk := h.disk.put _ s.location }) holds' named
      simp only [Disk.put_put] at rest
      rcases rest with ⟨e, u, later, failed⟩ | ⟨each, later, done'⟩
      · exact .inl ⟨e, u, later, failed⟩
      · exact .inr ⟨List.forall_mem_cons.mpr ⟨possible, each⟩, later, done'⟩

/-- When a site is removed, everything is as it was before there was one. -/
theorem put_none (same : s.base = d.tree) (wf : d.tree.WellFormed) (x : Option FileTree) :
    (d.put x s.location).put none s.location = d := by
  rw [Disk.put_put]
  have free : d.tree.at? s.location = none := same ▸ s.free
  exact congrArg (Disk.mk · d.workingDirectory) (FileTree.put_none_of_missing wf free)

end Site

/-- An absolute path that ends with a name, and that leads to a place where nothing is. -/
structure Disk.Vacant (d : Disk) (p : Path) (l : Location) : Prop where
  ends : ∃ start name, p.EndsIn start name
  leads : d.locate p = .ok l
  free : d.tree.at? l = none

/-! ## Directories for temporary files -/

namespace TemporaryDirs

variable {t : TemporaryDirs} {h : Host}

/-- What is relied on in compilations: a directory that is made is new and empty, and to remove a directory removes all
that is in it and nothing else, or fails. -/
structure Lawful (t : TemporaryDirs) : Prop where
  /-- If no directory can be made, nothing has changed. -/
  makes (h : Host) : (∃ fault, t.make.outcome h = (.error fault, h)) ∨
    ∃ root l, h.disk.Vacant root l ∧
      t.make.outcome h = (.ok root, { h with disk := h.disk.put (some (.dir [])) l })
  /-- If a directory cannot be removed, there may be less in it than before. -/
  removes (root : Path) (h : Host) : (∃ fault, (t.remove root).outcome h = (.error fault, h)) ∨
    ∃ l, h.disk.locate root = .ok l ∧
      ((t.remove root).outcome h = (.ok (), { h with disk := h.disk.put none l }) ∨
        ∃ fault rest, (t.remove root).outcome h = (.error fault, { h with disk := h.disk.put rest l }))

/-- A workspace that cannot be removed is a fault of its deletion. -/
theorem close_outcome (t : TemporaryDirs) (w : Workspace) (h : Host) :
    (t.close w).outcome h = (((t.remove w.root).outcome h).1.mapError fun _ => .io .delete w.root,
      ((t.remove w.root).outcome h).2) := HostStep.outcome_adapt _ _ h

/-- A host that is as it was but for one place. -/
def OnlyAt (l : Location) (h h' : Host) : Prop := h' = h ∨ ∃ rest, h' = { h with disk := h.disk.put rest l }

/-- **Closing a workspace**, whatever has become of the disk, changes nothing but what is at its place. If it succeeds,
there is nothing any more. -/
theorem Lawful.close_spec (lawful : t.Lawful) (s : Site) (h : Host) :
    (∃ h', (t.close s.workspace).outcome h = (.error (.io .delete s.root), h') ∧ OnlyAt s.location h h') ∨
      (t.close s.workspace).outcome h = (.ok (), { h with disk := h.disk.put none s.location }) ∧
        (h.disk.put none s.location).exists? s.root = false := by
  rw [close_outcome, Site.workspace]
  rcases lawful.removes s.root h with ⟨fault, failed⟩ | ⟨l, located, done | ⟨fault, rest, failed⟩⟩
  · rw [failed]
    exact .inl ⟨h, rfl, .inl rfl⟩
  · rw [done, Site.eq_location_of_locate located]
    exact .inr ⟨rfl, Site.exists?_put_none located⟩
  · rw [failed, Site.eq_location_of_locate located]
    exact .inl ⟨_, rfl, .inr ⟨rest, rfl⟩⟩

/-- A workspace that has just been reserved is there, and there is nothing in it. -/
theorem Lawful.reserve_spec (lawful : t.Lawful) (h : Host) (wf : h.disk.tree.WellFormed) :
    (∃ e, t.reserve.outcome h = (.error e, h)) ∨
      ∃ s : Site, s.base = h.disk.tree ∧
        s.Holds (h.disk.put (some (.dir [])) s.location) (.dir []) ∧
        t.reserve.outcome h =
          (.ok s.workspace, { h with disk := h.disk.put (some (.dir [])) s.location }) := by
  rw [reserve_outcome]
  rcases lawful.makes h with ⟨fault, failed⟩ | ⟨root, l, ⟨⟨start, name, ends⟩, leads, free⟩, made⟩
  · rw [failed]
    exact .inl ⟨_, rfl⟩
  · obtain ⟨s, rfl, base, rfl, _⟩ := Site.exists_of_locate ends leads free
    rw [made]
    have kept : s.base.KeptIn h.disk.tree := base ▸ FileTree.KeptIn.refl _
    exact .inr ⟨s, base, s.holds_put kept wf rfl FileTree.wellFormed_empty, rfl⟩

end TemporaryDirs

namespace Workspace

/-- The names of the directories of a workspace. -/
def dirNames : List String := ["classes", "sources", "generated", "processor"]

/-- What is in a workspace that has been created. -/
def emptyTree : FileTree :=
  .dir [⟨"classes", .dir []⟩, ⟨"generated", .dir []⟩, ⟨"processor", .dir []⟩, ⟨"sources", .dir []⟩]

/-- An empty directory furnished with all of them is an empty workspace. -/
theorem furnishing_dirNames : Site.furnishing (.dir []) dirNames = emptyTree := rfl

/-- The directories of a workspace have names. -/
theorem isName_of_mem_dirNames : ∀ name ∈ dirNames, Path.isName name = true := by decide

end Workspace

/-- **Completing a workspace** puts four empty directories into it, or fails when some of them are there. -/
theorem Site.createDirs_outcome (s : Site) {h : Host}
    (holds : s.Holds (h.disk.put (some (.dir [])) s.location) (.dir [])) :
    (∃ e u, s.Holds (h.disk.put (some u) s.location) u ∧
      s.workspace.createDirs.outcome { h with disk := h.disk.put (some (.dir [])) s.location } =
        (.error e, { h with disk := h.disk.put (some u) s.location })) ∨
      (∀ name ∈ Workspace.dirNames, checkPath (s.root.join ⟨name⟩) = .ok ()) ∧
        s.Holds (h.disk.put (some Workspace.emptyTree) s.location) Workspace.emptyTree ∧
        s.workspace.createDirs.outcome { h with disk := h.disk.put (some (.dir [])) s.location } =
          (.ok (), { h with disk := h.disk.put (some Workspace.emptyTree) s.location }) := by
  have made := Holds.createDirs (h := { h with disk := h.disk.put _ s.location }) holds Workspace.dirNames
    Workspace.isName_of_mem_dirNames
  simp only [Disk.put_put, Workspace.furnishing_dirNames] at made
  exact made

namespace Workspace

/-- Workspaces have names. -/
theorem isName_nameOf (number : Nat) : Path.isName (nameOf number) = true := by
  apply UnitName.isName_of_isPlain (by decide) (by decide)
  rw [String.toList_ofList]
  intro slash
  obtain ⟨place, _, same⟩ := List.mem_map.mp slash
  have digit : ∀ n < 10, Nat.digitChar n ≠ '/' := by decide
  exact digit _ (Nat.mod_lt _ (by decide)) same

/-- Workspaces are made in a place that does not depend on where one is. -/
theorem isAbsolute_parentOf (h : Host) : (parentOf h).isAbsolute = true := by
  apply Path.isAbsolute_join
  simp [Disk.workingPath, Path.isAbsolute]

/-- The directory of a name is created where nothing is, or nothing is changed. -/
theorem createDir_named {name : String} (isName : Path.isName name = true) (h : Host) :
    (∃ fault, Disk.createDir (named h name).root h.disk = .error fault h.disk) ∨
      ∃ l, h.disk.Vacant (named h name).root l ∧
        Disk.createDir (named h name).root h.disk = .ok () (h.disk.put (some (.dir [])) l) := by
  obtain ⟨start, each⟩ := Path.exists_endsIn_join (isAbsolute_parentOf h)
  rw [Disk.createDir_run]
  cases located : h.disk.locate (named h name).root with
  | error fault => exact .inl ⟨fault, rfl⟩
  | ok l =>
    simp only
    cases free : h.disk.tree.at? l with
    | some _ => exact .inl ⟨_, rfl⟩
    | none => exact .inr ⟨l, ⟨⟨start, name, each name isName⟩, located, free⟩, rfl⟩

/-- **Reserving a workspace** makes a site, or fails and changes nothing. -/
theorem reserveAs_spec {name : String} (isName : Path.isName name = true) (h : Host) :
    (reserveAs name).outcome h = (.error (.io .create h.temporaryDir), h) ∨
      ∃ s : Site, s.base = h.disk.tree ∧ s.workspace = named h name ∧ s.name = name ∧
        (∀ name, Path.isName name = true → (named h name).root.EndsIn s.start name) ∧
        (reserveAs name).outcome h =
          (.ok s.workspace, { h with disk := h.disk.put (some (.dir [])) s.location }) := by
  obtain ⟨start, each⟩ := Path.exists_endsIn_join (isAbsolute_parentOf h)
  rw [reserveAs_outcome]
  rcases createDir_named isName h with ⟨fault, failed⟩ | ⟨l, vacant, done⟩
  · rw [failed]
    exact .inl rfl
  · obtain ⟨s, root, base, rfl, name', rfl⟩ :=
      Site.exists_of_locate (each name isName) vacant.leads vacant.free
    have workspace : s.workspace = named h name := congrArg Workspace.mk root
    refine .inr ⟨s, base, workspace, name', each, ?_⟩
    rw [done, workspace]

/-- A workspace is reserved under the first name that is free. -/
theorem reserve_eq (h : Host) :
    reserve.outcome h = (reserveAs (firstFree (fun name => h.disk.exists? (named h name).root)
      nameCount 0)).outcome h := by
  rw [reserve_steps, HostStep.outcome_bind, HostStep.outcome_get]

/-- Which workspace is reserved depends on the disk and on the environment only. -/
theorem reserve_congr (h h' : Host) (disk : h.disk = h'.disk) (environment : h.environment = h'.environment) :
    (reserve.outcome h').1 = (reserve.outcome h).1 ∧
      (reserve.outcome h').2 = { h' with disk := (reserve.outcome h).2.disk } := by
  obtain ⟨d, env, calls, notes⟩ := h
  obtain ⟨d', env', calls', notes'⟩ := h'
  simp only at disk environment
  subst disk
  subst environment
  have same (calls notes) (name : String) : named ⟨d, env, calls, notes⟩ name = named ⟨d, env, [], []⟩ name :=
    rfl
  simp only [reserve_eq, reserveAs_outcome, same]
  generalize firstFree _ nameCount 0 = name
  cases Disk.createDir (named ⟨d, env, [], []⟩ name).root d <;> exact ⟨rfl, rfl⟩

/-- The name that is tried is one of those for workspaces. -/
theorem firstFree_eq_nameOf (taken : String → Bool) (tries number : Nat) :
    ∃ n, firstFree taken tries number = nameOf n := by
  induction tries generalizing number with
  | zero => exact ⟨number, rfl⟩
  | succ tries ih =>
    unfold firstFree
    split
    · exact ih (number + 1)
    · exact ⟨number, rfl⟩

/-- The directories with numbers in their names are such directories. -/
theorem numbered_lawful : TemporaryDirs.numbered.Lawful where
  makes h := by
    rw [make_outcome]
    obtain ⟨number, same⟩ := firstFree_eq_nameOf (fun name => h.disk.exists? (named h name).root) nameCount 0
    rw [same]
    simp only
    rcases createDir_named (isName_nameOf number) h with ⟨fault, failed⟩ | ⟨l, vacant, done⟩
    · rw [failed]
      exact .inl ⟨fault, rfl⟩
    · rw [done]
      exact .inr ⟨_, l, vacant, rfl⟩
  removes root h := by
    have outcome := HostStep.outcome_onDisk id (Disk.removeDirAll root) h
    rw [Disk.removeDirAll_run] at outcome
    cases located : h.disk.locate root with
    | error fault =>
      rw [located] at outcome
      exact .inl ⟨fault, outcome⟩
    | ok l =>
      rw [located] at outcome
      simp only at outcome
      rcases there : h.disk.tree.at? l with _ | (_ | entries)
      · rw [there] at outcome
        exact .inl ⟨_, outcome⟩
      · rw [there] at outcome
        exact .inl ⟨_, outcome⟩
      · rw [there] at outcome
        exact .inr ⟨l, rfl, .inl outcome⟩

/-- A workspace that has just been reserved is there, and there is nothing in it. -/
theorem reserve_spec (h : Host) (wf : h.disk.tree.WellFormed) :
    (∃ e, reserve.outcome h = (.error e, h)) ∨
      ∃ s : Site, s.base = h.disk.tree ∧
        s.Holds (h.disk.put (some (.dir [])) s.location) (.dir []) ∧
        reserve.outcome h =
          (.ok s.workspace, { h with disk := h.disk.put (some (.dir [])) s.location }) :=
  numbered_lawful.reserve_spec h wf

end Workspace

end ProcessorBench
