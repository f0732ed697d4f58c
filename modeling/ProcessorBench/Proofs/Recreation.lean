import Mathlib.Data.List.Nodup
import ProcessorBench.Proofs.Filling

/-!
# Collecting and writing back

Artifacts are kept by name, and a file gives way to a later one of its name. So collecting loses nothing exactly if
all files of the tree have different names (`ArtifactSet.ofFiles_perm_iff`). What has been collected can be written
into any empty directory, as long as the paths are not too long there, and the directory holds the artifacts
afterwards, and no other files (`ArtifactSet.Placed.writeTo`): the files of the tree if their names are different, and
only then.
-/

namespace ProcessorBench

/-- The artifact that a file of a tree is. -/
def Artifact.ofFile (file : Location × Bytes) : Artifact := ⟨file.1, file.2⟩

/-- The name under which an artifact is kept, if its place gives one. -/
def Artifact.name? (a : Artifact) : Option String := UnitName.ofNames? a.location "class"

/-- No two files of a tree have the same name as artifacts. -/
def FileTree.NamesApart (t : FileTree) : Prop := (t.files.map fun file => (Artifact.ofFile file).name?).Nodup

namespace ArtifactSet

variable {s s' : ArtifactSet} {name : String} {a : Artifact} {entries : List (String × Artifact)}
  {files : List (Location × Bytes)}

/-! ## What is kept -/

/-- Artifacts stand in the order of their names, each under its own. -/
structure Keyed (entries : List (String × Artifact)) : Prop where
  ascending : (entries.map (·.1)).Pairwise (· < ·)
  named : ∀ entry ∈ entries, entry.2.name? = some entry.1

theorem keyed_nil : Keyed [] := ⟨.nil, nofun⟩

/-- Placing an artifact leaves the names in ascending order. -/
theorem place_ascending (ascending : (entries.map (·.1)).Pairwise (· < ·)) :
    ((place name a entries).map (·.1)).Pairwise (· < ·) := by
  rw [List.pairwise_map] at ascending ⊢
  induction entries with
  | nil => exact List.pairwise_singleton _ _
  | cons first rest ih =>
    obtain ⟨name', a'⟩ := first
    obtain ⟨less, ascending'⟩ := List.pairwise_cons.mp ascending
    unfold place
    split
    next before =>
      refine List.pairwise_cons.mpr ⟨fun e mem => ?_, ascending⟩
      rcases List.mem_cons.mp mem with rfl | mem
      · exact before
      · exact lt_trans before (less e mem)
    next after =>
      split
      next same => exact List.pairwise_cons.mpr ⟨fun e mem => same ▸ less e mem, ascending'⟩
      next other =>
        refine List.pairwise_cons.mpr ⟨fun e mem => ?_, ih ascending'⟩
        rcases mem_place mem with rfl | mem
        · exact lt_of_le_of_ne (not_lt.mp after) (Ne.symm other)
        · exact less e mem

/-- Placing an artifact under its own name leaves all of them under theirs. -/
theorem Keyed.place (keyed : Keyed entries) (named : a.name? = some name) : Keyed (place name a entries) where
  ascending := place_ascending keyed.ascending
  named entry mem := by
    rcases mem_place mem with rfl | mem
    · exact named
    · exact keyed.named entry mem

/-- An artifact of a new name is added to the others. -/
theorem place_perm (new : name ∉ entries.map (·.1)) : (place name a entries).Perm ((name, a) :: entries) := by
  induction entries with
  | nil => exact List.Perm.refl _
  | cons first rest ih =>
    obtain ⟨name', a'⟩ := first
    rw [List.map_cons, List.mem_cons, not_or] at new
    unfold place
    split
    · exact List.Perm.refl _
    · rw [if_neg new.1]
      exact ((ih new.2).cons _).trans (List.Perm.swap _ _ _)

/-- The names of artifacts that are kept are those that their places give. -/
theorem Keyed.map_name? (keyed : Keyed entries) :
    (entries.map (·.2)).map Artifact.name? = (entries.map (·.1)).map some := by
  rw [List.map_map, List.map_map]
  exact List.map_congr_left keyed.named

/-- Artifacts under their own names have different ones. -/
theorem Keyed.nodup_name? (keyed : Keyed entries) : ((entries.map (·.2)).map Artifact.name?).Nodup := by
  rw [keyed.map_name?]
  exact (keyed.ascending.imp ne_of_lt).map _ fun _ _ other => by simpa using other

/-- Artifacts that are kept have different places. -/
theorem Keyed.nodup_locations (keyed : Keyed entries) : ((entries.map (·.2)).map (·.location)).Nodup := by
  have names := keyed.nodup_name?
  have byPlace : Artifact.name? = (UnitName.ofNames? · "class") ∘ Artifact.location := rfl
  rw [byPlace, ← List.map_map] at names
  exact List.Nodup.of_map _ names

/-- Artifacts that are gathered stand under their own names. -/
theorem ofFiles_keyed (keyed : Keyed s.entries) (gathered : ofFiles s files = .ok s') : Keyed s'.entries := by
  induction files generalizing s with
  | nil =>
    cases gathered
    exact keyed
  | cons file files ih =>
    obtain ⟨location, content⟩ := file
    unfold ofFiles at gathered
    split at gathered
    · cases gathered
    next name named =>
      have placed : Keyed (s.insert name ⟨location, content⟩).entries := keyed.place named
      exact ih placed gathered

/-- Files of different names are all kept. -/
theorem ofFiles_perm (gathered : ofFiles s files = .ok s')
    (apart : (files.map fun file => (Artifact.ofFile file).name?).Nodup)
    (new : ∀ file ∈ files, ∀ entry ∈ s.entries, (Artifact.ofFile file).name? ≠ some entry.1) :
    (s'.entries.map (·.2)).Perm (files.map Artifact.ofFile ++ s.entries.map (·.2)) := by
  induction files generalizing s with
  | nil =>
    cases gathered
    exact List.Perm.refl _
  | cons file files ih =>
    obtain ⟨location, content⟩ := file
    rw [List.map_cons, List.nodup_cons] at apart
    obtain ⟨other, apart⟩ := apart
    obtain ⟨first, new⟩ := List.forall_mem_cons.mp new
    unfold ofFiles at gathered
    split at gathered
    · cases gathered
    next name named =>
      have placed : (place name ⟨location, content⟩ s.entries).Perm ((name, ⟨location, content⟩) :: s.entries) := by
        refine place_perm fun mem => ?_
        obtain ⟨entry, kept, rfl⟩ := List.mem_map.mp mem
        exact first entry kept named
      refine (ih gathered apart fun file mem entry mem' => ?_).trans ?_
      · rcases List.mem_cons.mp (placed.subset mem') with rfl | mem'
        · rintro same
          exact other (List.mem_map.mpr ⟨file, mem, same.trans named.symm⟩)
        · exact new file mem entry mem'
      · exact ((placed.map _).append_left _).trans List.perm_middle

/-- **Collecting loses no file** exactly if all have different names. -/
theorem ofFiles_perm_iff (gathered : ofFiles {} files = .ok s) :
    (s.entries.map (·.2)).Perm (files.map Artifact.ofFile) ↔
      (files.map fun file => (Artifact.ofFile file).name?).Nodup := by
  constructor
  · intro all
    have names := (all.map Artifact.name?).nodup_iff.mp (ofFiles_keyed keyed_nil gathered).nodup_name?
    rwa [List.map_map] at names
  · intro apart
    have all := ofFiles_perm gathered apart fun _ _ _ => nofun
    rwa [List.map_nil, List.append_nil] at all

/-- Nothing is kept but files. -/
theorem mem_ofFiles (gathered : ofFiles s files = .ok s') {entry : String × Artifact} (mem : entry ∈ s'.entries) :
    entry ∈ s.entries ∨ ∃ file ∈ files, entry.2 = Artifact.ofFile file := by
  induction files generalizing s with
  | nil =>
    cases gathered
    exact .inl mem
  | cons file files ih =>
    obtain ⟨location, content⟩ := file
    unfold ofFiles at gathered
    split at gathered
    · cases gathered
    next name named =>
      rcases ih gathered with mem' | ⟨file, later, same⟩
      · rcases mem_place mem' with rfl | mem'
        · exact .inr ⟨(location, content), List.mem_cons_self, rfl⟩
        · exact .inl mem'
      · exact .inr ⟨file, List.mem_cons_of_mem _ later, same⟩

end ArtifactSet

/-! ## Writing -/

/-- A walk of steps succeeds only if each of them does. -/
theorem HostStep.exists_of_forM_eq_ok {ε β : Type} {f : β → HostStep ε PUnit} {as : List β} {h : Host}
    (given : (outcome (as.forM f) h).1 = .ok ()) : ∀ a ∈ as, ∃ h', ((f a).outcome h').1 = .ok () := by
  induction as generalizing h with
  | nil => nofun
  | cons a as ih =>
    obtain ⟨h', given⟩ := exists_outcome given
    obtain ⟨_, middle, first, rest⟩ := outcome_bind_eq_ok.mp given
    exact List.forall_mem_cons.mpr ⟨⟨h, congrArg Prod.fst first⟩, ih (congrArg Prod.fst rest)⟩

namespace Disk

variable {t : FileTree} {here l : Location} {names : List String} {p : Path}

/-- Names that lead somewhere are not too long. -/
theorem fitNames_of_follow (named : ∀ n ∈ names, Path.isName n = true) (leads : follow t here names = .ok l) :
    FitNames names := by
  induction names generalizing here with
  | nil => nofun
  | cons name names ih =>
    obtain ⟨first, named⟩ := List.forall_mem_cons.mp named
    obtain ⟨⟨entries, isDir⟩, step, leads⟩ := follow_cons_eq_ok leads
    rw [advance_name first isDir] at step
    refine List.forall_mem_cons.mpr ⟨?_, ih named leads⟩
    by_contra long
    rw [if_pos (not_le.mp long)] at step
    cases step

/-- A file can only be written to a place that can be reached. -/
theorem fits_of_writeFile {h : Host} {content : Bytes} (nonempty : p.text ≠ "") (given : l ≠ [])
    (named : ∀ n ∈ l, Path.isName n = true)
    (done : ((Workspace.writeFile (p.join (.ofNames l)) content).outcome h).1 = .ok ()) : Fits p l := by
  -- Whatever has been created before, the last step is to write the file itself.
  obtain ⟨d, d', written⟩ : ∃ d d', write (p.join (.ofNames l)) content d = .ok () d' := by
    obtain ⟨h', done⟩ := HostStep.exists_outcome done
    have last (h : Host) (done : (HostStep.doing .write (p.join (.ofNames l))
        (write (p.join (.ofNames l)) content)).outcome h = (.ok (), h')) :
        ∃ d d', write (p.join (.ofNames l)) content d = .ok () d' := by
      rw [HostStep.outcome_doing] at done
      cases written : write (p.join (.ofNames l)) content h.disk with
      | ok _ d' => exact ⟨_, d', written⟩
      | error fault d' =>
        rw [written] at done
        cases done
    rw [Workspace.writeFile] at done
    split at done
    · obtain ⟨_, middle, _, done⟩ := HostStep.outcome_bind_eq_ok.mp done
      exact last middle done
    · exact last h done
  rw [write_run] at written
  cases located : d.locate (p.join (.ofNames l)) with
  | error fault =>
    rw [located] at written
    cases written
  | ok there =>
    obtain ⟨_, possible, _⟩ := bind_eq_ok.mp located
    refine ⟨possible, ?_⟩
    rw [Path.join_ofNames nonempty given named,
      locate_joinAll nonempty fun n mem => (Path.isName_iff.mp (named n mem)).2.2.2] at located
    obtain ⟨_, _, located⟩ := bind_eq_ok.mp located
    obtain ⟨_, _, leads⟩ := bind_eq_ok.mp located
    exact fitNames_of_follow named leads

end Disk

namespace FileTree

variable {t u : FileTree}

/-- Trees with the same files list them in the same order. -/
theorem files_eq_of_perm (wf : t.WellFormed) (wf' : u.WellFormed) (same : t.files.Perm u.files) :
    t.files = u.files := by
  have ascending := files_ascending wf
  have ascending' := files_ascending wf'
  rw [List.pairwise_map] at ascending ascending'
  exact same.eq_of_pairwise (fun _ _ _ _ before after => absurd after (lt_asymm before)) ascending ascending'

/-- Trees with the same artifacts have the same files. -/
theorem files_perm_iff :
    (t.files.map Artifact.ofFile).Perm (u.files.map Artifact.ofFile) ↔ t.files.Perm u.files := by
  refine ⟨fun same => ?_, fun same => same.map _⟩
  have back := same.map fun a : Artifact => (a.location, a.content)
  have undone : (fun a : Artifact => (a.location, a.content)) ∘ Artifact.ofFile = id := rfl
  rwa [List.map_map, List.map_map, undone, List.map_id, List.map_id] at back

/-- The artifacts of a tree are its files with their contents. -/
theorem mem_map_ofFile (wf : t.WellFormed) {a : Artifact} :
    a ∈ t.files.map Artifact.ofFile ↔ t.contentAt? a.location = some a.content := by
  rw [contentAt?_eq_some, ← mem_files_iff wf, List.mem_map]
  exact ⟨fun ⟨_, mem, same⟩ => same ▸ mem, fun mem => ⟨_, mem, rfl⟩⟩

/-- They are all different. -/
theorem nodup_map_ofFile (wf : t.WellFormed) : (t.files.map Artifact.ofFile).Nodup := by
  have places : ((t.files.map Artifact.ofFile).map (·.location)).Nodup := by
    rw [List.map_map]
    exact (files_ascending wf).imp ne_of_lt
  exact List.Nodup.of_map _ places

end FileTree

namespace ArtifactSet

variable {d : Disk} {root dir : Path} {s : ArtifactSet} {t : FileTree} {h : Host}

/-- The artifacts of a set, in the order of their names. -/
def artifacts (s : ArtifactSet) : List Artifact := s.entries.map (·.2)

/-- Artifacts are written one after the other. -/
theorem writeTo_eq (s : ArtifactSet) (dir : Path) :
    s.writeTo dir = s.artifacts.forM fun a => Workspace.writeFile (dir.join a.path) a.content :=
  (List.forM_map (f := fun a : Artifact => Workspace.writeFile (dir.join a.path) a.content)).symm

/-- Artifacts with their places among the files of a tree, where no two have the same. -/
structure Placed (s : ArtifactSet) (t : FileTree) : Prop where
  isDir : t.isDir = true
  wellFormed : t.WellFormed
  there : ∀ a ∈ s.artifacts, ∃ c executable, t.at? a.location = some (.file c executable)
  apart : (s.artifacts.map (·.location)).Nodup

/-- What has been collected from a tree has its place there. -/
theorem placed_of_ofFiles (wf : t.WellFormed) (gathered : ofFiles {} t.files = .ok s) : s.Placed t where
  isDir := by
    cases t with
    | file content executable => cases gathered
    | dir entries => rfl
  wellFormed := wf
  there a mem := by
    obtain ⟨entry, kept, rfl⟩ := List.mem_map.mp mem
    obtain ⟨file, mem, same⟩ := (mem_ofFiles gathered kept).resolve_left List.not_mem_nil
    rw [same]
    exact ⟨file.2, (FileTree.mem_files_iff wf).mp mem⟩
  apart := (ofFiles_keyed keyed_nil gathered).nodup_locations

/-- Artifacts whose places can be reached from an empty directory are written there, and nothing else is. -/
theorem Placed.writeTo (placed : s.Placed t) (there : h.disk.lookup dir = .ok (.dir []))
    (fits : ∀ a ∈ s.artifacts, Disk.Fits dir a.location) :
    ((s.writeTo dir).outcome h).1 = .ok () ∧ ∃ u, ((s.writeTo dir).outcome h).2.disk.lookup dir = .ok u ∧
      u.WellFormed ∧ (u.files.map Artifact.ofFile).Perm s.artifacts := by
  obtain ⟨base, located, empty⟩ := Disk.lookup_eq_ok.mp there
  obtain ⟨entries, rfl⟩ := FileTree.isDir_iff.mp placed.isDir
  obtain ⟨d', u, run, fills, contents⟩ := (Disk.fills_empty empty entries).writeAll placed.wellFormed empty located
    fits placed.there placed.apart
  rw [writeTo_eq, run]
  refine ⟨rfl, u, Disk.lookup_eq_ok.mpr ⟨base, Disk.locate_of_keptIn fills.kept fills.workingDirectory located,
    fills.has⟩, fills.wellFormed, ?_⟩
  refine (List.perm_ext_iff_of_nodup (FileTree.nodup_map_ofFile fills.wellFormed)
    (List.Nodup.of_map _ placed.apart)).mpr fun a => ?_
  rw [FileTree.mem_map_ofFile fills.wellFormed, contents, or_iff_left]
  rintro ⟨_, before⟩
  have nothing : (FileTree.dir []).contentAt? a.location = none := by cases a.location <;> rfl
  rw [nothing] at before
  cases before

/-- Artifacts can be written only to places that can be reached. -/
theorem Placed.fits_of_writeTo (placed : s.Placed t) (nonempty : dir.text ≠ "")
    (done : ((s.writeTo dir).outcome h).1 = .ok ()) : ∀ a ∈ s.artifacts, Disk.Fits dir a.location := by
  intro a mem
  rw [writeTo_eq] at done
  obtain ⟨h', done⟩ := HostStep.exists_of_forM_eq_ok done a mem
  obtain ⟨c, executable, has⟩ := placed.there a mem
  refine Disk.fits_of_writeFile nonempty ?_ (FileTree.isName_of_at? placed.wellFormed has) done
  intro nowhere
  obtain ⟨entries, rfl⟩ := FileTree.isDir_iff.mp placed.isDir
  rw [nowhere] at has
  cases has

/-- **Collecting and writing back.** Of a tree, all files are collected exactly if their names are different. What has
been collected can be written into an empty directory exactly if its places can be reached there, and then it is what
the directory holds: the files of the tree exactly if their names are different. -/
theorem collect_writeTo_iff (wf : d.tree.WellFormed) (collected : collect d root = .ok s) :
    ∃ t, d.lookup root = .ok t ∧ (s.artifacts.Perm (t.files.map Artifact.ofFile) ↔ t.NamesApart) ∧
      ∀ (h : Host) (dir : Path), h.disk.lookup dir = .ok (.dir []) →
        (((s.writeTo dir).outcome h).1 = .ok () ↔ ∀ a ∈ s.artifacts, Disk.Fits dir a.location) ∧
        (((s.writeTo dir).outcome h).1 = .ok () →
          ∃ u, ((s.writeTo dir).outcome h).2.disk.lookup dir = .ok u ∧
            (u.files.map Artifact.ofFile).Perm s.artifacts ∧ (u.files = t.files ↔ t.NamesApart)) := by
  unfold collect at collected
  split at collected
  · cases collected
  next t found =>
    have wf' := Disk.wellFormed_lookup wf found
    have placed := placed_of_ofFiles wf' collected
    have lossless : s.artifacts.Perm (t.files.map Artifact.ofFile) ↔ t.NamesApart := ofFiles_perm_iff collected
    refine ⟨t, found, lossless, fun h dir there => ?_⟩
    obtain ⟨_, located, _⟩ := Disk.lookup_eq_ok.mp there
    have reached := placed.fits_of_writeTo (h := h) (Disk.text_ne_empty_of_locate located)
    refine ⟨⟨reached, fun fits => (placed.writeTo there fits).1⟩, fun done => ?_⟩
    obtain ⟨_, u, has, wfu, exactly⟩ := placed.writeTo there (reached done)
    refine ⟨u, has, exactly, ?_⟩
    rw [← lossless]
    constructor
    · intro same
      exact same ▸ exactly.symm
    · intro all
      exact FileTree.files_eq_of_perm wfu wf' (FileTree.files_perm_iff.mp (exactly.trans all))

/-- A tree in which all files have different names. -/
def tidyTree : FileTree :=
  .dir [⟨"A.class", .file [1] false⟩, ⟨"p", .dir [⟨"A.class", .file [2] false⟩, ⟨"notes", .file [] true⟩]⟩]

/-- The artifacts of that tree. -/
def tidySet : ArtifactSet :=
  ⟨[("A", ⟨["A.class"], [1]⟩), ("p.A", ⟨["p", "A.class"], [2]⟩), ("p.notes", ⟨["p", "notes"], []⟩)]⟩

/-- That tree beside an empty directory. -/
def tidyHost : Host where
  disk := ⟨.dir [⟨"empty", .dir []⟩, ⟨"out", tidyTree⟩], []⟩
  environment := []

/-- A set that has been collected is written elsewhere and collected again. -/
theorem collect_writeTo_iff_tidy :
    tidyHost.disk.tree.WellFormed ∧ collect tidyHost.disk ⟨"/out"⟩ = .ok tidySet ∧
      tidyHost.disk.lookup ⟨"/out"⟩ = .ok tidyTree ∧ tidySet.artifacts.Perm (tidyTree.files.map Artifact.ofFile) ∧
      ((tidySet.writeTo ⟨"empty/../empty/."⟩).outcome tidyHost).1 = .ok () ∧
      ∃ u, ((tidySet.writeTo ⟨"empty/../empty/."⟩).outcome tidyHost).2.disk.lookup ⟨"empty/../empty/."⟩ = .ok u ∧
        u.files = tidyTree.files := by
  have wf : tidyHost.disk.tree.WellFormed := rfl
  have collected : collect tidyHost.disk ⟨"/out"⟩ = .ok tidySet := by decide +kernel
  have looked : tidyHost.disk.lookup ⟨"/out"⟩ = .ok tidyTree := rfl
  have apart : tidyTree.NamesApart := by
    unfold FileTree.NamesApart
    decide +kernel
  have fits : ∀ a ∈ tidySet.artifacts, Disk.Fits ⟨"empty/../empty/."⟩ a.location := by
    unfold Disk.Fits Disk.FitNames
    decide +kernel
  obtain ⟨t, found, lossless, writes⟩ := collect_writeTo_iff wf collected
  obtain rfl : tidyTree = t := Except.ok.inj (looked.symm.trans found)
  obtain ⟨done, held⟩ := writes tidyHost ⟨"empty/../empty/."⟩ rfl
  have written := done.mpr fits
  obtain ⟨u, has, _, same⟩ := held written
  exact ⟨wf, collected, looked, lossless.mpr apart, written, u, has, same.mpr apart⟩

/-- A disk with a directory in which two files have the name `a.b`. -/
def crowdedDisk : Disk :=
  ⟨.dir [⟨"out", .dir [⟨"a", .dir [⟨"b", .file [2] false⟩]⟩, ⟨"a.b", .file [1] false⟩]⟩], []⟩

/-- **Collecting can lose a file**: of two with one name, the last is kept. -/
theorem collect_crowded : ∃ s t, collect crowdedDisk ⟨"/out"⟩ = .ok s ∧ crowdedDisk.lookup ⟨"/out"⟩ = .ok t ∧
    ¬ s.artifacts.Perm (t.files.map Artifact.ofFile) := by
  have collected : collect crowdedDisk ⟨"/out"⟩ = .ok ⟨[("a.b", ⟨["a.b"], [1]⟩)]⟩ := by decide +kernel
  refine ⟨_, _, collected, rfl, fun all => ?_⟩
  exact absurd all.length_eq (by decide)

end ArtifactSet

end ProcessorBench
