import ProcessorBench.FileTree.Disk
import ProcessorBench.Proofs.Paths
import ProcessorBench.Proofs.Steps
import ProcessorBench.Proofs.Trees

/-!
# Where paths lead

Where a path leads is said by its segments alone; the tree only decides whether it leads anywhere. So a path
leads to the same place for as long as the directories on the way are there (`Disk.follow_of_keptIn`), and from
a directory along names it leads to a place below that directory, as it would in the tree of the directory
alone (`Disk.follow_inside`).
-/

namespace ProcessorBench

/-! ## Trees that outlast others -/

namespace FileTree

variable {base t : FileTree} {x : Option FileTree} {here : Location} {name : String}
  {entries : List DirEntry}

/-- What is in a tree is in another one too, directories as directories and files as files. -/
def KeptIn (base t : FileTree) : Prop :=
  ∀ l u, base.at? l = some u → ∃ v, t.at? l = some v ∧ v.isDir = u.isDir

/-- A tree is kept in itself. -/
theorem KeptIn.refl (t : FileTree) : t.KeptIn t := fun _ u has => ⟨u, has, rfl⟩

/-- What is a directory has entries. -/
theorem isDir_iff {u : FileTree} : u.isDir = true ↔ ∃ entries, u = .dir entries := by
  cases u <;> simp [isDir]

/-- A directory stays one. -/
theorem KeptIn.dir (kept : base.KeptIn t) (has : base.at? here = some (.dir entries)) :
    ∃ entries', t.at? here = some (.dir entries') := by
  obtain ⟨v, has', same⟩ := kept here _ has
  obtain ⟨entries', rfl⟩ := isDir_iff.mp same
  exact ⟨entries', has'⟩

/-- What is kept stays so when something is put where there was nothing. -/
theorem KeptIn.put (kept : base.KeptIn t) (missing : base.at? (here ++ [name]) = none)
    (has : t.at? here = some (.dir entries)) (x : Option FileTree) :
    base.KeptIn (t.put x (here ++ [name])) := by
  intro l u given
  obtain ⟨v, found, same⟩ := kept l u given
  rcases at?_put_cases has x name l with ⟨rest, rfl, _⟩ | ⟨before, after, dir, dir'⟩ | ⟨_, unchanged⟩
  · -- There would have been something above it.
    rw [at?_append, missing] at given
    cases given
  · rw [dir] at found
    cases found
    exact ⟨_, dir', same⟩
  · exact ⟨v, unchanged.trans found, same⟩

/-- What is kept stays so when something that is kept at the same place is put there. -/
theorem KeptIn.put_left {v x : FileTree} (kept : base.KeptIn t) (above : base.at? here = some (.dir entries))
    (has : t.at? (here ++ [name]) = some v) (inside : x.KeptIn v) :
    (base.put (some x) (here ++ [name])).KeptIn t := by
  intro l u given
  rcases at?_put_cases above (some x) name l with ⟨rest, rfl, put⟩ | ⟨before, after, dir, dir'⟩ | ⟨_, unchanged⟩
  · rw [put, Option.bind_some] at given
    obtain ⟨w, found, same⟩ := inside rest u given
    exact ⟨w, by rw [at?_append, has, Option.bind_some, found], same⟩
  · rw [dir'] at given
    cases given
    obtain ⟨entries', found⟩ := kept.dir dir
    exact ⟨_, found, rfl⟩
  · exact kept l u (unchanged.symm.trans given)

/-- A file may have another content later. -/
theorem keptIn_file (content content' : Bytes) (executable executable' : Bool) :
    (FileTree.file content executable).KeptIn (.file content' executable') := by
  intro l u given
  cases l with
  | nil =>
    cases given
    exact ⟨_, rfl, rfl⟩
  | cons name rest => cases given

/-- An empty directory is kept in each directory. -/
theorem keptIn_dir (entries : List DirEntry) : (FileTree.dir []).KeptIn (.dir entries) := by
  intro l u given
  cases l with
  | nil =>
    cases given
    exact ⟨_, rfl, rfl⟩
  | cons name rest => cases given

end FileTree

/-! ## Following -/

namespace Disk

variable {t t' u : FileTree} {here l : Location} {segment : String} {segments names : List String}
  {c : Path.Component} {entries : List DirEntry}

/-- Where a segment leads from a place, if there is a directory. -/
def advance (t : FileTree) (here : Location) (segment : String) : Except FileFault Location :=
  match t.at? here with
  | none => .error .missing
  | some (.file ..) => .error .notDirectory
  | some (.dir _) =>
    match Path.Component.ofSegment? segment with
    | none => .ok here
    | some .parent => .ok here.dropLast
    | some _ => if segment.utf8ByteSize > nameLimit then .error .tooLong else .ok (here ++ [segment])

/-- Where a segment leads from a place, whatever there is. -/
def turn (here : Location) (segment : String) : Location :=
  match Path.Component.ofSegment? segment with
  | none => here
  | some .parent => here.dropLast
  | some _ => here ++ [segment]

/-- Following segments advances by the first one. -/
theorem follow_cons (t : FileTree) (here : Location) (segment : String) (segments : List String) :
    follow t here (segment :: segments) =
      (advance t here segment).bind fun l => follow t l segments := by
  rw [follow, advance]
  rcases t.at? here with _ | (_ | entries)
  · rfl
  · rfl
  · cases Path.Component.ofSegment? segment with
    | none => rfl
    | some component => cases component <;> first | rfl | (simp only; split <;> rfl)

/-- Segments behind others are followed from where these lead. -/
theorem follow_append (t : FileTree) (here : Location) (segments more : List String) :
    follow t here (segments ++ more) = (follow t here segments).bind fun l => follow t l more := by
  induction segments generalizing here with
  | nil => rfl
  | cons segment segments ih =>
    rw [List.cons_append, follow_cons, follow_cons]
    cases advance t here segment with
    | error fault => rfl
    | ok next => exact ih next

/-- What a segment leads from is a directory. -/
theorem advance_eq_ok (leads : advance t here segment = .ok l) :
    (∃ entries, t.at? here = some (.dir entries)) ∧ l = turn here segment := by
  unfold advance at leads
  unfold turn
  split at leads
  · cases leads
  · cases leads
  next entries found =>
    refine ⟨⟨entries, found⟩, ?_⟩
    split at leads
    · cases leads
      rfl
    · cases leads
      rfl
    · split at leads
      · cases leads
      · cases leads
        rfl

/-- Following a segment needs a directory, and takes one turn. -/
theorem follow_cons_eq_ok (leads : follow t here (segment :: segments) = .ok l) :
    (∃ entries, t.at? here = some (.dir entries)) ∧ advance t here segment = .ok (turn here segment) ∧
      follow t (turn here segment) segments = .ok l := by
  rw [follow_cons] at leads
  obtain ⟨next, first, leads⟩ := bind_eq_ok.mp leads
  obtain ⟨above, rfl⟩ := advance_eq_ok first
  exact ⟨above, first, leads⟩

/-- **Where a path leads** is said by its segments, if it leads anywhere. -/
theorem eq_foldl_of_follow (leads : follow t here segments = .ok l) :
    l = segments.foldl turn here := by
  induction segments generalizing here with
  | nil =>
    cases leads
    rfl
  | cons segment segments ih => exact ih (follow_cons_eq_ok leads).2.2

/-- A path leads to the same place for as long as the directories on the way are there. -/
theorem follow_of_keptIn (kept : t.KeptIn t') (leads : follow t here segments = .ok l) :
    follow t' here segments = .ok l := by
  induction segments generalizing here with
  | nil => exact leads
  | cons segment segments ih =>
    obtain ⟨⟨entries, found⟩, first, leads⟩ := follow_cons_eq_ok leads
    obtain ⟨entries', found'⟩ := kept.dir found
    have first' : advance t' here segment = .ok (turn here segment) := by
      rw [← first, advance, advance, found, found']
    rw [follow_cons, first']
    exact ih leads

/-- A name leads one step down, unless it is too long. -/
theorem advance_name (named : Path.isName segment = true) (found : t.at? here = some (.dir entries)) :
    advance t here segment =
      if segment.utf8ByteSize > nameLimit then .error .tooLong else .ok (here ++ [segment]) := by
  rw [advance, found, Path.ofSegment?_of_isName named]

/-- A name turns downwards. -/
theorem turn_name (named : Path.isName segment = true) (here : Location) :
    turn here segment = here ++ [segment] := by
  rw [turn, Path.ofSegment?_of_isName named]

/-- **From a directory**, segments that do not lead up lead to where they would lead in the tree of the
directory. -/
theorem follow_inside (has : t.at? here = some u)
    (inside : ∀ s ∈ segments, Path.Component.ofSegment? s ≠ some .parent) (l : Location) :
    follow t (here ++ l) segments = (follow u l segments).map (here ++ ·) := by
  induction segments generalizing l with
  | nil => rfl
  | cons segment segments ih =>
    obtain ⟨first, inside⟩ := List.forall_mem_cons.mp inside
    have same : t.at? (here ++ l) = u.at? l := by rw [FileTree.at?_append, has, Option.bind_some]
    have step : advance t (here ++ l) segment = (advance u l segment).map (here ++ ·) := by
      rw [advance, advance, same, List.append_assoc]
      rcases u.at? l with _ | (_ | _)
      · rfl
      · rfl
      · cases down : Path.Component.ofSegment? segment with
        | none => rfl
        | some c =>
          cases c with
          | parent => exact absurd down first
          | _ =>
            simp only
            split <;> rfl
    rw [follow_cons, follow_cons, step]
    cases advance u l segment with
    | error fault => rfl
    | ok next => exact ih inside next

/-- Below a tree names are followed as in the tree alone. -/
theorem follow_below (has : t.at? here = some u) (named : ∀ n ∈ names, Path.isName n = true)
    (l : Location) : follow t (here ++ l) names = (follow u l names).map (here ++ ·) :=
  follow_inside has (fun n mem => Path.ofSegment?_ne_parent (named n mem)) l

/-- Names lead to the place that they name. -/
theorem eq_append_of_follow (named : ∀ n ∈ names, Path.isName n = true)
    (leads : follow t here names = .ok l) : l = here ++ names := by
  induction names generalizing here with
  | nil =>
    cases leads
    exact (List.append_nil _).symm
  | cons name names ih =>
    obtain ⟨first, named⟩ := List.forall_mem_cons.mp named
    have rest := ih named (follow_cons_eq_ok leads).2.2
    rw [rest, turn_name first, List.append_assoc]
    rfl

/-! ## Creating directories on the way -/

/-- A directory on the way down is made unless it is there. -/
theorem createFrom_cons_down (down : Path.Component.ofSegment? segment = some c)
    (apart : c ≠ .parent) (here : Location) (rest : List String) (d : Disk) :
    createFrom here (segment :: rest) d =
      if segment.utf8ByteSize > nameLimit then .error .tooLong d
      else match d.tree.at? (here ++ [segment]) with
        | some (.dir _) => createFrom (here ++ [segment]) rest d
        | some (.file ..) => .error .notDirectory d
        | none =>
          createFrom (here ++ [segment]) rest
            { d with tree := d.tree.put (some (.dir [])) (here ++ [segment]) } := by
  rw [createFrom, down]
  by_cases long : segment.utf8ByteSize > nameLimit
  · rw [if_pos long, if_pos long]
    cases c <;> first | rfl | exact absurd rfl apart
  · rw [if_neg long, if_neg long]
    have opened : (match d.tree.at? (here ++ [segment]) with
        | some (.dir _) => createFrom (here ++ [segment]) rest
        | some (.file ..) => throw .notDirectory
        | none => do
          putAt (here ++ [segment]) (some (.dir []))
          createFrom (here ++ [segment]) rest : DiskStep Unit) d =
        match d.tree.at? (here ++ [segment]) with
        | some (.dir _) => createFrom (here ++ [segment]) rest d
        | some (.file ..) => .error .notDirectory d
        | none =>
          createFrom (here ++ [segment]) rest
            { d with tree := d.tree.put (some (.dir [])) (here ++ [segment]) } := by
      rcases d.tree.at? (here ++ [segment]) with _ | (_ | _) <;> rfl
    cases c <;> first | exact opened | exact absurd rfl apart

/-- A directory of a name is made on the way unless it is there. -/
theorem createFrom_cons_name (named : Path.isName segment = true) (here : Location)
    (rest : List String) (d : Disk) :
    createFrom here (segment :: rest) d =
      if segment.utf8ByteSize > nameLimit then .error .tooLong d
      else match d.tree.at? (here ++ [segment]) with
        | some (.dir _) => createFrom (here ++ [segment]) rest d
        | some (.file ..) => .error .notDirectory d
        | none =>
          createFrom (here ++ [segment]) rest
            { d with tree := d.tree.put (some (.dir [])) (here ++ [segment]) } :=
  createFrom_cons_down (Path.ofSegment?_of_isName named) nofun here rest d

/-- A directory that is there is passed over. -/
theorem createFrom_cons_of_advance {d : Disk} (leads : advance d.tree here segment = .ok l)
    (found : d.tree.at? l = some (.dir entries)) (rest : List String) :
    createFrom here (segment :: rest) d = createFrom l rest d := by
  obtain ⟨⟨above, has⟩, rfl⟩ := advance_eq_ok leads
  rw [advance, has] at leads
  unfold turn at leads found ⊢
  cases step : Path.Component.ofSegment? segment with
  | none => rw [createFrom, step]
  | some c =>
    rw [step] at leads found
    by_cases up : c = .parent
    · subst up
      rw [createFrom, step]
    · have down : d.tree.at? (here ++ [segment]) = some (.dir entries) := by
        cases c <;> first | exact found | exact absurd rfl up
      rw [createFrom_cons_down step up, down, if_neg]
      · cases c <;> first | rfl | exact absurd rfl up
      · intro long
        rw [if_pos long] at leads
        cases c <;> first | exact up rfl | cases leads

/-- Directories that are there are passed over. -/
theorem createFrom_append {d : Disk} (leads : follow d.tree here segments = .ok l)
    (found : d.tree.at? l = some (.dir entries)) (more : List String) :
    createFrom here (segments ++ more) d = createFrom l more d := by
  induction segments generalizing here with
  | nil =>
    cases leads
    rfl
  | cons segment segments ih =>
    obtain ⟨_, first, leads⟩ := follow_cons_eq_ok leads
    have next : ∃ entries', d.tree.at? (turn here segment) = some (.dir entries') := by
      cases segments with
      | nil =>
        cases leads
        exact ⟨entries, found⟩
      | cons => exact (follow_cons_eq_ok leads).1
    obtain ⟨entries', next⟩ := next
    rw [List.cons_append, createFrom_cons_of_advance first next]
    exact ih leads

end Disk

end ProcessorBench
