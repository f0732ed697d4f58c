import ProcessorBench.Proofs.Descending
import ProcessorBench.Proofs.Files

/-!
# Filling a directory

Files that have their places in one tree are written into an empty directory, one after the other. What the
directory holds meanwhile has its place in the tree as well, directories as directories and files as files
(`Disk.Fills`), so that no file is in the way of another. Each file changes the content at its own place only
(`Disk.Fills.writeFile`), and after all of them the directory holds these files and no others
(`Disk.Fills.writeAll`).
-/

namespace ProcessorBench

namespace FileTree

variable {t u v x : FileTree} {base here k l : Location} {name : String} {entries : List DirEntry} {content : Bytes}

/-- The content of the file at a location. -/
def contentAt? (t : FileTree) (l : Location) : Option Bytes := (t.at? l).bind content?

/-- A content stands where there is a file that has it. -/
theorem contentAt?_eq_some :
    t.contentAt? l = some content ↔ ∃ executable, t.at? l = some (.file content executable) := by
  unfold contentAt?
  rcases t.at? l with _ | (_ | _)
  · simp
  · simp [content?]
  · simp [content?]

/-- What is put below a place, seen from there. -/
theorem at?_put_within (has : t.at? base = some u) (x : Option FileTree) (below : l ≠ []) :
    (t.put x (base ++ l)).at? base = some (u.put x l) := by
  rcases List.eq_nil_or_concat' base with rfl | ⟨here, name, rfl⟩
  · rw [at?_nil] at has ⊢
    cases has
    rfl
  · obtain ⟨entries, above⟩ := exists_dir_of_at?_append has
    rw [put_append has (by simp) below, at?_put_self above]

/-- **A file that is put in a directory**, and an empty directory too, changes the content at its own place only. -/
theorem contentAt?_put (above : u.at? here = some (.dir entries))
    (free : ∀ rest, rest ≠ [] → u.at? (here ++ [name] ++ rest) = none)
    (bare : ∀ rest, rest ≠ [] → x.at? rest = none) (k : Location) : (u.put (some x) (here ++ [name])).contentAt? k =
      if k = here ++ [name] then x.content? else u.contentAt? k := by
  unfold contentAt?
  rcases at?_put_cases above (some x) name k with ⟨rest, rfl, put⟩ | ⟨before, after, dir, dir'⟩ | ⟨other, unchanged⟩
  · rw [put, Option.bind_some]
    by_cases empty : rest = []
    · subst empty
      rw [List.append_nil, if_pos rfl, at?_nil, Option.bind_some]
    · rw [if_neg (by simp [empty]), bare rest empty, free rest empty]
  · rw [dir', dir]
    split
    next same =>
      rw [same, at?_put_self above] at dir'
      cases dir'
      rfl
    next => rfl
  · rw [unchanged, if_neg other]

end FileTree

namespace Disk

variable {d d₀ : Disk} {p : Path} {t u : FileTree} {base here l : Location} {name : String} {names : List String}
  {entries : List DirEntry} {content : Bytes}

/-- Names that a path can go down along. -/
def FitNames (names : List String) : Prop := ∀ n ∈ names, n.utf8ByteSize ≤ nameLimit

/-- A path leads to the same place for as long as all that was there is kept. -/
theorem locate_of_keptIn (kept : d₀.tree.KeptIn d.tree) (same : d.workingDirectory = d₀.workingDirectory)
    (located : d₀.locate p = .ok l) : d.locate p = .ok l := by
  obtain ⟨_, possible, leads⟩ := bind_eq_ok.mp located
  have start : d.start p = d₀.start p := by rw [Disk.start, same, Disk.start]
  rw [locate, possible, start]
  exact follow_of_keptIn kept leads

/-- Names of directories lead down, and so does a name of anything in the last one. -/
theorem follow_names (named : ∀ n ∈ names ++ [name], Path.isName n = true) (fits : FitNames (names ++ [name]))
    (above : t.at? (here ++ names) = some (.dir entries)) :
    follow t here (names ++ [name]) = .ok (here ++ (names ++ [name])) := by
  induction names generalizing here with
  | nil =>
    rw [List.append_nil] at above
    rw [List.nil_append, follow_cons, advance_name (named name (by simp)) above, if_neg]
    · rfl
    · exact not_lt.mpr (fits name (by simp))
  | cons first names ih =>
    obtain ⟨firstNamed, named⟩ := List.forall_mem_cons.mp named
    obtain ⟨firstFits, fits⟩ := List.forall_mem_cons.mp fits
    obtain ⟨entries', isDir⟩ := FileTree.exists_dir_of_at?_append above
    have step : advance t here first = .ok (here ++ [first]) := by
      rw [advance_name firstNamed isDir, if_neg (not_lt.mpr firstFits)]
    rw [List.append_cons] at above
    rw [List.cons_append, follow_cons, step]
    show follow t (here ++ [first]) (names ++ [name]) = _
    rw [ih named fits above, List.append_assoc]
    rfl

/-- A directory at a place, empty on a first disk, holds only what has its place in a tree, and nothing that was on
the first disk has been given up. -/
structure Fills (d₀ : Disk) (base : Location) (t : FileTree) (d : Disk) (u : FileTree) : Prop where
  has : d.tree.at? base = some u
  isDir : u.isDir = true
  wellFormed : u.WellFormed
  within : u.KeptIn t
  kept : d₀.tree.KeptIn d.tree
  workingDirectory : d.workingDirectory = d₀.workingDirectory

/-- An empty directory has been filled with nothing. -/
theorem fills_empty (empty : d₀.tree.at? base = some (.dir [])) (entries : List DirEntry) :
    d₀.Fills base (.dir entries) d₀ (.dir []) :=
  ⟨empty, rfl, FileTree.wellFormed_empty, FileTree.keptIn_dir entries, FileTree.KeptIn.refl _, rfl⟩

namespace Fills

/-- Below the directory stands what it has been filled with. -/
theorem at?_append (fills : d₀.Fills base t d u) (l : Location) : d.tree.at? (base ++ l) = u.at? l := by
  rw [FileTree.at?_append, fills.has, Option.bind_some]

/-- Something is put where the tree has the like. -/
theorem put (fills : d₀.Fills base t d u) (empty : d₀.tree.at? base = some (.dir []))
    (above : u.at? here = some (.dir entries)) {v x : FileTree} (there : t.at? (here ++ [name]) = some v)
    (inside : x.KeptIn v) (wf : x.WellFormed) (named : Path.isName name = true) :
    d₀.Fills base t (d.put (some x) (base ++ (here ++ [name]))) (u.put (some x) (here ++ [name])) where
  has := FileTree.at?_put_within fills.has _ (by simp)
  isDir := Site.isDir_put fills.isDir _ _
  wellFormed := fills.wellFormed.put named (FileTree.wellFormed_some wf) here
  within := fills.within.put_left above there inside
  kept := by
    have missing : d₀.tree.at? (base ++ here ++ [name]) = none := by
      obtain ⟨first, rest, split⟩ := List.exists_cons_of_ne_nil (show here ++ [name] ≠ [] by simp)
      rw [List.append_assoc, FileTree.at?_append, empty, split]
      rfl
    have isDir : d.tree.at? (base ++ here) = some (.dir entries) := (fills.at?_append here).trans above
    rw [put_tree, ← List.append_assoc]
    exact fills.kept.put missing isDir _
  workingDirectory := fills.workingDirectory

/-- **Creating the directories** that a tree has on a way along names. No content is changed. -/
theorem createFrom (fills : d₀.Fills base t d u) (wf : t.WellFormed) (empty : d₀.tree.at? base = some (.dir []))
    (fits : FitNames names) (above : u.at? here = some (.dir entries)) {entries' : List DirEntry}
    (there : t.at? (here ++ names) = some (.dir entries')) :
    ∃ d' u' entries'', Disk.createFrom (base ++ here) names d = .ok () d' ∧ d₀.Fills base t d' u' ∧
      u'.at? (here ++ names) = some (.dir entries'') ∧ ∀ k, u'.contentAt? k = u.contentAt? k := by
  induction names generalizing here d u entries with
  | nil => exact ⟨d, u, entries, rfl, fills, by rwa [List.append_nil], fun _ => rfl⟩
  | cons name names ih =>
    obtain ⟨firstFits, fits⟩ := List.forall_mem_cons.mp fits
    rw [List.append_cons] at there
    have named : Path.isName name = true := FileTree.isName_of_at? wf there name (by simp)
    obtain ⟨entries₁, next⟩ : ∃ entries₁, t.at? (here ++ [name]) = some (.dir entries₁) := by
      cases names with
      | nil => exact ⟨entries', by rwa [List.append_nil] at there⟩
      | cons => exact FileTree.exists_dir_of_at?_append there
    rw [createFrom_cons_name named, if_neg (not_lt.mpr firstFits), List.append_assoc, fills.at?_append,
      List.append_cons here name names]
    cases found : u.at? (here ++ [name]) with
    -- What is there is a directory, since the tree has one here.
    | some v =>
      obtain ⟨w, has, same⟩ := fills.within _ v found
      rw [next] at has
      cases has
      obtain ⟨entries₂, rfl⟩ := FileTree.isDir_iff.mp same.symm
      exact ih fills fits found there
    -- A new directory holds no content, no more than there was before.
    | none =>
      have fills' := fills.put empty above next (FileTree.keptIn_dir entries₁) FileTree.wellFormed_empty named
      obtain ⟨d', u', entries'', run, fills'', isDir, content⟩ :=
        ih fills' fits (FileTree.at?_put_self above _ name) there
      refine ⟨d', u', entries'', run, fills'', isDir, fun k => ?_⟩
      rw [content, FileTree.contentAt?_put above]
      · split
        next same =>
          subst same
          rw [FileTree.contentAt?, found]
          rfl
        next => rfl
      · intro rest _
        rw [FileTree.at?_append, found]
        rfl
      · intro rest nonempty
        obtain ⟨first, more, rfl⟩ := List.exists_cons_of_ne_nil nonempty
        rfl

/-- Where a path leads that goes on along names of directories, and one more name. -/
theorem locate (fills : d₀.Fills base t d u) (located : d₀.locate p = .ok base)
    (named : ∀ n ∈ names ++ [name], Path.isName n = true) (fits : FitNames (names ++ [name]))
    (possible : checkPath (p.joinAll (names ++ [name])) = .ok ()) (above : u.at? names = some (.dir entries)) :
    d.locate (p.joinAll (names ++ [name])) = .ok (base ++ (names ++ [name])) := by
  have located' := locate_of_keptIn fills.kept fills.workingDirectory located
  have whole : ∀ n ∈ names ++ [name], '/' ∉ n.toList := fun n mem => (Path.isName_iff.mp (named n mem)).2.2.2
  rw [locate_joinAll (text_ne_empty_of_locate located) whole, possible, located']
  exact follow_names named fits ((fills.at?_append names).trans above)

/-- **Writing a file** where the tree has one. -/
theorem write (fills : d₀.Fills base t d u) (wf : t.WellFormed) (empty : d₀.tree.at? base = some (.dir []))
    (located : d₀.locate p = .ok base) (fits : FitNames (names ++ [name]))
    (possible : checkPath (p.joinAll (names ++ [name])) = .ok ()) (above : u.at? names = some (.dir entries))
    {content' : Bytes} {executable : Bool} (there : t.at? (names ++ [name]) = some (.file content' executable))
    (content : Bytes) : ∃ d' u', Disk.write (p.joinAll (names ++ [name])) content d = .ok () d' ∧
      d₀.Fills base t d' u' ∧
      ∀ k, u'.contentAt? k = if k = names ++ [name] then some content else u.contentAt? k := by
  have named := FileTree.isName_of_at? wf there
  -- What is written is a file, and there was none below it.
  have written (executable : Bool) (free : ∀ rest, rest ≠ [] → u.at? (names ++ [name] ++ rest) = none) :
      ∃ d' u', EStateM.Result.ok () (d.put (some (.file content executable)) (base ++ (names ++ [name]))) =
          (.ok () d' : EStateM.Result FileFault Disk Unit) ∧ d₀.Fills base t d' u' ∧
        ∀ k, u'.contentAt? k = if k = names ++ [name] then some content else u.contentAt? k := by
    refine ⟨_, _, rfl, fills.put empty above there (FileTree.keptIn_file _ _ _ _) (FileTree.wellFormed_file _ _)
      (named name (by simp)), fun k => FileTree.contentAt?_put above free (fun rest nonempty => ?_) k⟩
    obtain ⟨first, more, rfl⟩ := List.exists_cons_of_ne_nil nonempty
    rfl
  rw [write_run, fills.locate located named fits possible above]
  simp only
  rw [fills.at?_append]
  cases found : u.at? (names ++ [name]) with
  | none =>
    refine written false fun rest _ => ?_
    rw [FileTree.at?_append, found]
    rfl
  | some v =>
    obtain ⟨w, has, same⟩ := fills.within _ v found
    rw [there] at has
    cases has
    cases v with
    | dir => cases same
    | file content'' executable' =>
      refine written executable' fun rest nonempty => ?_
      obtain ⟨first, more, rfl⟩ := List.exists_cons_of_ne_nil nonempty
      rw [FileTree.at?_append, found]
      rfl

end Fills

/-- A place that can be reached from a path: the way there is a path, and no name in it is too long. -/
def Fits (p : Path) (l : Location) : Prop := checkPath (p.join (.ofNames l)) = .ok () ∧ FitNames l

/-- **Writing one of the files of a tree**, with the directories on the way to it. -/
theorem Fills.writeFile {h : Host} (fills : d₀.Fills base t h.disk u) (wf : t.WellFormed)
    (empty : d₀.tree.at? base = some (.dir [])) (located : d₀.locate p = .ok base) (fits : Fits p l)
    {content' : Bytes} {executable : Bool} (there : t.at? l = some (.file content' executable)) (content : Bytes) :
    ∃ d' u', (Workspace.writeFile (p.join (.ofNames l)) content).outcome h = (.ok (), { h with disk := d' }) ∧
      d₀.Fills base t d' u' ∧ ∀ k, u'.contentAt? k = if k = l then some content else u.contentAt? k := by
  have named := FileTree.isName_of_at? wf there
  obtain ⟨entries, root⟩ := FileTree.isDir_iff.mp fills.isDir
  have above : u.at? [] = some (.dir entries) := by rw [root]; rfl
  rcases List.eq_nil_or_concat' l with rfl | ⟨names, name, rfl⟩
  · -- The tree is a directory.
    obtain ⟨v, has, same⟩ := fills.within [] _ above
    rw [there] at has
    cases has
    cases same
  obtain ⟨possible, fit⟩ := fits
  rw [Path.join_ofNames (text_ne_empty_of_locate located) (by simp) named] at possible ⊢
  obtain ⟨entries₁, onTheWay⟩ := FileTree.exists_dir_of_at?_append there
  obtain ⟨d₁, u₁, entries₂, created, fills₁, isDir, same₁⟩ := fills.createFrom wf empty
    (fun n mem => fit n (List.mem_append_left _ mem)) above (List.nil_append names ▸ onTheWay)
  rw [List.append_nil] at created
  rw [List.nil_append] at isDir
  obtain ⟨d₂, u₂, written, fills₂, same₂⟩ := fills₁.write wf empty located fit possible isDir there content
  have located' := locate_of_keptIn fills.kept fills.workingDirectory located
  obtain ⟨q, parent, create⟩ := createDirAll_parent located' (root ▸ fills.has) named possible
  refine ⟨d₂, u₂, ?_, fills₂, fun k => by rw [same₂, same₁]⟩
  rw [Workspace.writeFile, parent]
  show HostStep.outcome (HostStep.doing .create q (Disk.createDirAll q) >>= fun _ =>
    HostStep.doing .write _ (Disk.write _ content)) h = _
  rw [HostStep.outcome_bind, HostStep.outcome_doing, create, created]
  simp only
  rw [HostStep.outcome_doing]
  simp only [written]

/-- Write artifacts below a directory, each to its place. -/
theorem Fills.writeAll {h : Host} {as : List Artifact} (fills : d₀.Fills base t h.disk u) (wf : t.WellFormed)
    (empty : d₀.tree.at? base = some (.dir [])) (located : d₀.locate p = .ok base)
    (fits : ∀ a ∈ as, Fits p a.location)
    (there : ∀ a ∈ as, ∃ c executable, t.at? a.location = some (.file c executable))
    (apart : (as.map (·.location)).Nodup) : ∃ d' u',
      HostStep.outcome (as.forM fun a => Workspace.writeFile (p.join a.path) a.content) h =
        (.ok (), { h with disk := d' }) ∧ d₀.Fills base t d' u' ∧
      ∀ k c, u'.contentAt? k = some c ↔ ⟨k, c⟩ ∈ as ∨ (k ∉ as.map (·.location) ∧ u.contentAt? k = some c) := by
  induction as generalizing h u with
  | nil => exact ⟨h.disk, u, rfl, fills, by simp⟩
  | cons a as ih =>
    obtain ⟨firstFits, fits⟩ := List.forall_mem_cons.mp fits
    obtain ⟨⟨c, executable, firstThere⟩, there⟩ := List.forall_mem_cons.mp there
    obtain ⟨other, apart⟩ := List.nodup_cons.mp apart
    obtain ⟨d₁, u₁, run₁, fills₁, same₁⟩ := fills.writeFile wf empty located firstFits firstThere a.content
    obtain ⟨d₂, u₂, run₂, fills₂, same₂⟩ := ih (h := { h with disk := d₁ }) fills₁ fits there apart
    refine ⟨d₂, u₂, ?_, fills₂, fun k c => ?_⟩
    · show HostStep.outcome (Workspace.writeFile (p.join a.path) a.content >>= fun _ => as.forM _) h = _
      rw [HostStep.outcome_bind, Artifact.path, run₁]
      exact run₂
    · rw [same₂, same₁, List.mem_cons, List.map_cons, List.mem_cons, not_or]
      -- The places differ, so what the first artifact has left is not written over.
      by_cases here : k = a.location
      · subst here
        have later : (⟨a.location, c⟩ : Artifact) ∉ as := fun mem => other (List.mem_map.mpr ⟨_, mem, rfl⟩)
        have self : (⟨a.location, c⟩ : Artifact) = a ↔ a.content = c :=
          ⟨fun same => (congrArg Artifact.content same).symm, fun same => same ▸ rfl⟩
        simp [later, other, self]
      · have differs : (⟨k, c⟩ : Artifact) ≠ a := fun same => here (congrArg Artifact.location same)
        simp [here, differs]

end Disk

end ProcessorBench
