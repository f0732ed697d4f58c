import Mathlib.Data.List.Lex
import ProcessorBench.Compilation.Artifacts
import ProcessorBench.Proofs.Twins

/-!
# The files of a tree

`FileTree.files` lists each file of a well-formed tree once, with the names on the way to it
(`FileTree.mem_files_iff`), in the order of these (`FileTree.files_ascending`): a directory stands where its name
does, with all that is below it. So artifacts that have been collected have places that are ways along names
(`ArtifactSet.collect_isPlain`).
-/

namespace ProcessorBench

namespace FileTree

variable {t : FileTree} {entries : List DirEntry} {l : Location} {content : Bytes}

/-- A file in entries is a file below one of them. -/
theorem mem_filesOfEntries : (l, content) ∈ filesOfEntries entries ↔
    ∃ e ∈ entries, ∃ rest, l = e.name :: rest ∧ (rest, content) ∈ e.tree.files := by
  induction entries with
  | nil => simp [filesOfEntries]
  | cons e entries ih =>
    obtain ⟨name, tree⟩ := e
    rw [filesOfEntries, List.mem_append, ih, List.exists_mem_cons_iff, filesOfEntry, List.mem_map]
    constructor
    · rintro (⟨⟨rest, content⟩, mem, same⟩ | later)
      · cases same
        exact .inl ⟨rest, rfl, mem⟩
      · exact .inr later
    · rintro (⟨rest, rfl, mem⟩ | later)
      · exact .inl ⟨(rest, content), mem, rfl⟩
      · exact .inr later

/-- The files of a directory are those of its entries. -/
theorem files_dir (entries : List DirEntry) : (FileTree.dir entries).files = filesOfEntries entries := by
  rw [files]

/-- What is found under a name is the entry of that name. -/
theorem find?_eq_some_iff (ascending : DirEntry.Ascending entries) {name : String} :
    DirEntry.find? name entries = some t ↔ ⟨name, t⟩ ∈ entries := by
  refine ⟨DirEntry.mem_of_find?, fun mem => ?_⟩
  induction entries with
  | nil => cases mem
  | cons e entries ih =>
    obtain ⟨first, ascending⟩ := List.pairwise_cons.mp ascending
    rw [DirEntry.find?_cons]
    rcases List.mem_cons.mp mem with rfl | mem
    · rw [if_pos rfl]
    · have less := first name (List.mem_map_of_mem (f := DirEntry.name) mem)
      rw [if_neg (ne_of_lt less)]
      exact ih ascending mem

/-- A file that a location leads to is listed. -/
theorem mem_files_of_at? {executable : Bool} (has : t.at? l = some (.file content executable)) :
    (l, content) ∈ t.files := by
  induction l generalizing t with
  | nil =>
    cases has
    rw [files]
    exact List.mem_singleton_self _
  | cons name l ih =>
    cases t with
    | file => cases has
    | dir entries =>
      rw [at?_cons_dir] at has
      obtain ⟨tree, here, has⟩ := Option.bind_eq_some_iff.mp has
      rw [files_dir, mem_filesOfEntries]
      exact ⟨⟨name, tree⟩, DirEntry.mem_of_find? here, l, rfl, ih has⟩

/-- **The files of a tree** are what is in it and no directory. -/
theorem mem_files_iff (wf : t.WellFormed) :
    (l, content) ∈ t.files ↔ ∃ executable, t.at? l = some (.file content executable) := by
  refine ⟨fun mem => ?_, fun ⟨_, has⟩ => mem_files_of_at? has⟩
  induction l generalizing t with
  | nil =>
    cases t with
    | file content' executable =>
      rw [files, List.mem_singleton] at mem
      cases mem
      exact ⟨executable, rfl⟩
    | dir entries =>
      rw [files_dir, mem_filesOfEntries] at mem
      obtain ⟨_, _, _, ⟨⟩, _⟩ := mem
  | cons name l ih =>
    cases t with
    | file content' executable =>
      rw [files, List.mem_singleton] at mem
      cases mem
    | dir entries =>
      obtain ⟨ascending, each⟩ := wellFormed_dir_iff.mp wf
      rw [files_dir, mem_filesOfEntries] at mem
      obtain ⟨⟨name', tree⟩, mem, rest, ⟨⟩, inside⟩ := mem
      obtain ⟨executable, found⟩ := ih (each _ mem).2 inside
      exact ⟨executable, by rw [at?_cons_dir, (find?_eq_some_iff ascending).mpr mem]; exact found⟩

/-- The places of files are ways along names. -/
theorem isName_of_at? (wf : t.WellFormed) {u : FileTree} (has : t.at? l = some u) :
    ∀ n ∈ l, Path.isName n = true := by
  induction l generalizing t with
  | nil => nofun
  | cons name l ih =>
    cases t with
    | file => cases has
    | dir entries =>
      rw [at?_cons_dir] at has
      obtain ⟨tree, here, has⟩ := Option.bind_eq_some_iff.mp has
      obtain ⟨named, wf'⟩ := (wellFormed_dir_iff.mp wf).2 _ (DirEntry.mem_of_find? here)
      exact List.forall_mem_cons.mpr ⟨named, ih wf' has⟩

mutual

/-- **Files stand in the order of their places**, so that none stands twice. -/
theorem files_ascending : ∀ {t : FileTree}, t.WellFormed → (t.files.map (·.1)).Pairwise (· < ·)
  | .file _ _, _ => by
    rw [files]
    exact List.pairwise_singleton _ _
  | .dir entries, wf => by
    rw [files_dir]
    exact filesOfEntries_ascending (wellFormed_dir_iff.mp wf).1 fun e mem =>
      ((wellFormed_dir_iff.mp wf).2 e mem).2

/-- The files below entries are listed in ascending order. -/
theorem filesOfEntries_ascending : ∀ {entries : List DirEntry}, DirEntry.Ascending entries →
    (∀ e ∈ entries, e.tree.WellFormed) → ((filesOfEntries entries).map (·.1)).Pairwise (· < ·)
  | [], _, _ => .nil
  | ⟨name, tree⟩ :: rest, ascending, each => by
    obtain ⟨first, ascending⟩ := List.pairwise_cons.mp ascending
    obtain ⟨wf, each⟩ := List.forall_mem_cons.mp each
    rw [filesOfEntries, filesOfEntry, List.map_append, List.map_map, List.pairwise_append]
    refine ⟨?_, filesOfEntries_ascending ascending each, ?_⟩
    · have inside := files_ascending wf
      rw [List.pairwise_map] at inside ⊢
      exact inside.imp fun less => List.cons_lt_cons_iff.mpr (.inr ⟨rfl, less⟩)
    · intro l mem l' mem'
      obtain ⟨⟨rest', content⟩, _, rfl⟩ := List.mem_map.mp mem
      obtain ⟨⟨l', content'⟩, later, rfl⟩ := List.mem_map.mp mem'
      obtain ⟨e, there, _, rfl, _⟩ := mem_filesOfEntries.mp later
      exact List.cons_lt_cons_iff.mpr (.inl (first _ (List.mem_map_of_mem there)))

end

end FileTree

/-- What a path leads to on a well-formed disk. -/
theorem Disk.wellFormed_lookup {d : Disk} {p : Path} {t : FileTree} (wf : d.tree.WellFormed)
    (found : d.lookup p = .ok t) : t.WellFormed := by
  obtain ⟨_, _, has⟩ := lookup_eq_ok.mp found
  exact wf.at? has

namespace ArtifactSet

/-- An artifact is either the one that has been placed or has been there before. -/
theorem mem_place {name : String} {a : Artifact} {entries : List (String × Artifact)}
    {entry : String × Artifact} (mem : entry ∈ place name a entries) :
    entry = (name, a) ∨ entry ∈ entries := by
  induction entries with
  | nil => exact .inl (List.mem_singleton.mp mem)
  | cons first rest ih =>
    obtain ⟨name', a'⟩ := first
    unfold place at mem
    split at mem
    · exact (List.mem_cons.mp mem)
    · split at mem
      · exact (List.mem_cons.mp mem).imp_right (List.mem_cons_of_mem _)
      · rcases List.mem_cons.mp mem with rfl | mem
        · exact .inr List.mem_cons_self
        · exact (ih mem).imp_right (List.mem_cons_of_mem _)

/-- Artifacts that are gathered from files with plain names have plain names. -/
theorem ofFiles_isPlain {files : List (Location × Bytes)} {set set' : ArtifactSet}
    (plain : set.IsPlain) (named : ∀ file ∈ files, ∀ n ∈ file.1, Path.isName n = true)
    (gathered : ofFiles set files = .ok set') : set'.IsPlain := by
  induction files generalizing set with
  | nil =>
    cases gathered
    exact plain
  | cons file files ih =>
    obtain ⟨location, content⟩ := file
    obtain ⟨first, named⟩ := List.forall_mem_cons.mp named
    unfold ofFiles at gathered
    split at gathered
    · cases gathered
    next name given =>
      refine ih (fun entry mem => ?_) named gathered
      rcases mem_place mem with rfl | mem
      · refine ⟨?_, first⟩
        rintro rfl
        -- Nothing has no name.
        have nameless : UnitName.ofNames? [] "class" = none := by decide
        rw [nameless] at given
        cases given
      · exact plain entry mem

/-- **Artifacts that have been collected** have places that are ways along names. -/
theorem collect_isPlain {d : Disk} {p : Path} {set : ArtifactSet} (wf : d.tree.WellFormed)
    (collected : collect d p = .ok set) : set.IsPlain := by
  unfold collect at collected
  split at collected
  · cases collected
  next tree found =>
    have wf' := Disk.wellFormed_lookup wf found
    have empty : ({} : ArtifactSet).IsPlain := nofun
    refine ofFiles_isPlain empty (fun file mem => ?_) collected
    obtain ⟨_, has⟩ := (FileTree.mem_files_iff wf').mp mem
    exact FileTree.isName_of_at? wf' has

end ArtifactSet

end ProcessorBench
