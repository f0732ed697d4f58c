import ProcessorBench.Proofs.Locating

/-!
# Sites

A `Site` is a directory at a path, in trees that have come from one without it. As long as such a tree keeps
what was there before, each operation on a path below the site does what it would do in the tree of the
directory alone: where it leads is said by `Site.reach` (`Site.Holds.locate`), and what it changes is the tree
of the directory (`Site.Holds.put_below`).
-/

namespace ProcessorBench

namespace Disk

/-- A disk with another tree, or nothing, at a location. -/
def put (d : Disk) (x : Option FileTree) (l : Location) : Disk := { d with tree := d.tree.put x l }

@[simp] theorem put_tree (d : Disk) (x : Option FileTree) (l : Location) :
    (d.put x l).tree = d.tree.put x l := rfl

/-- Putting something in the same place twice leaves the last of it. -/
theorem put_put (d : Disk) (x y : Option FileTree) (l : Location) : (d.put x l).put y l = d.put y l :=
  congrArg (Disk.mk · d.workingDirectory) (FileTree.put_put d.tree x y l)

/-- A path is possible if it is not empty, not too long, and has no zero in it. -/
theorem checkPath_eq_ok {p : Path} : checkPath p = .ok () ↔
    '\x00' ∉ p.text.toList ∧ p.text.utf8ByteSize ≤ pathLimit ∧ p.text ≠ "" := by
  unfold checkPath
  by_cases zero : '\x00' ∈ p.text.toList
  · simp [zero]
  by_cases long : p.text.utf8ByteSize > pathLimit
  · simp [zero, long]
  by_cases empty : p.text = ""
  · simp [empty, pathLimit]
  · simp [zero, long, empty, not_lt.mp long]

/-- Whether a path can be one depends on the size of its text and on the zeros in it. -/
theorem checkPath_append_congr {p q : Path} (possible : checkPath p = .ok ())
    (possible' : checkPath q = .ok ()) (size : p.text.utf8ByteSize = q.text.utf8ByteSize)
    (rest : String) : checkPath ⟨p.text ++ rest⟩ = checkPath ⟨q.text ++ rest⟩ := by
  obtain ⟨zero, _, nonempty⟩ := checkPath_eq_ok.mp possible
  obtain ⟨zero', _, nonempty'⟩ := checkPath_eq_ok.mp possible'
  have filled : p.text ++ rest ≠ "" := fun empty => nonempty (String.append_eq_empty_iff.mp empty).1
  have filled' : q.text ++ rest ≠ "" := fun empty => nonempty' (String.append_eq_empty_iff.mp empty).1
  unfold checkPath
  simp only [String.toList_append, List.contains_append, String.utf8ByteSize_append, size, filled,
    filled']
  simp [zero, zero']

theorem locating_run (p : Path) (d : Disk) :
    locating p d = match d.locate p with
      | .error fault => .error fault d
      | .ok l => .ok l d := by
  have opened : ∀ k : Disk → DiskStep Location, ((get : DiskStep Disk) >>= k) d = k d d := fun _ => rfl
  rw [locating, opened]
  cases d.locate p <;> rfl

theorem locating_bind {α : Type} (p : Path) (k : Location → DiskStep α) (d : Disk) :
    (locating p >>= k) d = match d.locate p with
      | .error fault => .error fault d
      | .ok l => k l d := by
  show EStateM.bind (locating p) k d = _
  rw [EStateM.bind, locating_run]
  cases d.locate p <;> rfl

/-- Looking up succeeds where there is something at the location. -/
theorem lookup_eq_ok {d : Disk} {p : Path} {t : FileTree} :
    d.lookup p = .ok t ↔ ∃ l, d.locate p = .ok l ∧ d.tree.at? l = some t := by
  refine bind_eq_ok.trans (exists_congr fun l => and_congr_right fun _ => ?_)
  cases d.tree.at? l with
  | none => exact ⟨nofun, nofun⟩
  | some u => exact ⟨fun same => by cases same; rfl, fun same => by cases same; rfl⟩

/-- What is looked up is what stands at the location. -/
theorem lookup_of_locate {d : Disk} {p : Path} {l : Location} (located : d.locate p = .ok l) :
    d.lookup p = match d.tree.at? l with
      | some tree => .ok tree
      | none => .error .missing := by
  rw [lookup, located]
  rfl

theorem createDir_run (p : Path) (d : Disk) :
    createDir p d = match d.locate p with
      | .error fault => .error fault d
      | .ok l => match d.tree.at? l with
        | some _ => .error .alreadyExists d
        | none => .ok () (d.put (some (.dir [])) l) := by
  refine (locating_bind p _ d).trans ?_
  cases d.locate p with
  | error fault => rfl
  | ok l =>
    simp only
    show (match d.tree.at? l with
      | some _ => throw .alreadyExists
      | none => putAt l (some (.dir [])) : DiskStep Unit) d = _
    cases d.tree.at? l <;> rfl

theorem write_run (p : Path) (content : Bytes) (d : Disk) :
    write p content d = match d.locate p with
      | .error fault => .error fault d
      | .ok l => match d.tree.at? l with
        | some (.file _ executable) => .ok () (d.put (some (.file content executable)) l)
        | some (.dir _) => .error .isDirectory d
        | none => .ok () (d.put (some (.file content false)) l) := by
  refine (locating_bind p _ d).trans ?_
  cases d.locate p with
  | error fault => rfl
  | ok l =>
    simp only
    show (match d.tree.at? l with
      | some (.file _ executable) => putAt l (some (.file content executable))
      | some (.dir _) => throw .isDirectory
      | none => putAt l (some (.file content false)) : DiskStep Unit) d = _
    rcases d.tree.at? l with _ | (_ | _) <;> rfl

theorem removeDirAll_run (p : Path) (d : Disk) :
    removeDirAll p d = match d.locate p with
      | .error fault => .error fault d
      | .ok l => match d.tree.at? l with
        | some (.dir _) => .ok () (d.put none l)
        | some (.file ..) => .error .notDirectory d
        | none => .error .missing d := by
  refine (locating_bind p _ d).trans ?_
  cases d.locate p with
  | error fault => rfl
  | ok l =>
    simp only
    show (match d.tree.at? l with
      | some (.dir _) => putAt l none
      | some (.file ..) => throw .notDirectory
      | none => throw .missing : DiskStep Unit) d = _
    rcases d.tree.at? l with _ | (_ | _) <;> rfl

theorem createDirAll_run {p : Path} (nonempty : p.text ≠ "") (d : Disk) :
    createDirAll p d = match checkPath p with
      | .error fault => .error fault d
      | .ok () => createFrom (d.start p) p.segments d := by
  unfold createDirAll
  rw [if_neg nonempty]
  cases checkPath p <;> rfl

end Disk

/-- A directory at a path, and the tree as it was without it. -/
structure Site where
  root : Path
  base : FileTree
  /-- The directory in which it is. -/
  here : Location
  name : String
  /-- The path of that directory, but for a slash. -/
  start : String
  entries : List DirEntry
  ends : root.EndsIn start name
  possible : Disk.checkPath root = .ok ()
  leads : Disk.follow base [] (Text.splitOn '/' start) = .ok here
  isDir : base.at? here = some (.dir entries)
  fits : name.utf8ByteSize ≤ Disk.nameLimit
  free : base.at? (here ++ [name]) = none

namespace Site

variable {s s' : Site} {d : Disk} {t : FileTree} {names : List String} {name : String}

/-- Where the directory is. -/
def location (s : Site) : Location := s.here ++ [s.name]

/-- A site is below the top. -/
theorem location_ne_nil (s : Site) : s.location ≠ [] := by simp [location]

/-- The directory of a site is there, with the given tree, and all that was there before it. -/
structure Holds (s : Site) (d : Disk) (t : FileTree) : Prop where
  kept : s.base.KeptIn d.tree
  has : d.tree.at? s.location = some t
  isDir : t.isDir = true
  wellFormed : d.tree.WellFormed

/-- A site lies in a directory. -/
theorem exists_dir (s : Site) (kept : s.base.KeptIn t) :
    ∃ entries, t.at? s.here = some (.dir entries) := kept.dir s.isDir

/-- The tree of a site can be put in its place. -/
theorem holds_put (s : Site) (kept : s.base.KeptIn d.tree) (wf : d.tree.WellFormed)
    (isDir : t.isDir = true) (wf' : t.WellFormed) : s.Holds (d.put (some t) s.location) t := by
  obtain ⟨entries, found⟩ := s.exists_dir kept
  exact ⟨kept.put s.free found _, FileTree.at?_put_self found _ s.name, isDir,
    wf.put s.ends.named (FileTree.wellFormed_some wf') s.here⟩

/-- What is put at a site is held there. -/
theorem Holds.put (holds : s.Holds d t) {u : FileTree} (isDir : u.isDir = true)
    (wf : u.WellFormed) : s.Holds (d.put (some u) s.location) u :=
  s.holds_put holds.kept holds.wellFormed isDir wf

/-- What is there already is put there. -/
theorem Holds.put_self (holds : s.Holds d t) : d.put (some t) s.location = d :=
  congrArg (Disk.mk · d.workingDirectory)
    (FileTree.put_self holds.wellFormed holds.has s.location_ne_nil)

/-- Below a site stands what its tree has. -/
theorem Holds.at? (holds : s.Holds d t) (l : Location) : d.tree.at? (s.location ++ l) = t.at? l := by
  rw [FileTree.at?_append, holds.has, Option.bind_some]

/-- **What is changed below a site** changes its tree, and nothing else. -/
theorem Holds.put_below (holds : s.Holds d t) (x : Option FileTree) {l : Location} (below : l ≠ []) :
    d.put x (s.location ++ l) = d.put (some (t.put x l)) s.location :=
  congrArg (Disk.mk · d.workingDirectory) (FileTree.put_append holds.has s.location_ne_nil below)

/-- The tree at a site is well formed. -/
theorem Holds.wellFormed_tree (holds : s.Holds d t) : t.WellFormed := holds.wellFormed.at? holds.has

/-! ## Paths below a site -/

/-- Whether a path leads from a site along names, in the tree of the site. -/
def reach (s : Site) (t : FileTree) (names : List String) : Except FileFault Unit := do
  Disk.checkPath (s.root.joinAll names)
  let _ ← Disk.follow t [] names

/-- **A path below a site** leads to the place that its names say. -/
theorem Holds.locate (holds : s.Holds d t) (named : ∀ n ∈ names, Path.isName n = true) :
    d.locate (s.root.joinAll names) = (s.reach t names).map fun _ => s.location ++ names := by
  obtain ⟨entries, found⟩ := s.exists_dir holds.kept
  obtain ⟨_, _, ends⟩ := s.ends.joinAll named
  have leads := Disk.follow_of_keptIn holds.kept s.leads
  have below := Disk.follow_below holds.has named []
  rw [List.append_nil] at below
  have followed : Disk.follow d.tree (d.start (s.root.joinAll names)) (s.root.joinAll names).segments =
      (Disk.follow t [] names).map (s.location ++ ·) := by
    rw [s.ends.segments_joinAll named, s.ends.segments, Disk.start, if_pos ends.absolute,
      List.append_assoc, Disk.follow_append, leads]
    show Disk.follow d.tree s.here (s.name :: names) = _
    rw [Disk.follow_cons, Disk.advance_name s.ends.named found, if_neg (not_lt.mpr s.fits)]
    exact below
  rw [Disk.locate, followed, reach]
  cases Disk.checkPath (s.root.joinAll names) with
  | error fault => rfl
  | ok =>
    cases led : Disk.follow t [] names with
    | error fault => rfl
    | ok l =>
      have place := Disk.eq_append_of_follow named led
      subst place
      rfl

/-- Creating directories below a site starts from the site. -/
theorem Holds.createDirAll (holds : s.Holds d t) (named : ∀ n ∈ names, Path.isName n = true) :
    Disk.createDirAll (s.root.joinAll names) d =
      match Disk.checkPath (s.root.joinAll names) with
      | .error fault => .error fault d
      | .ok () => Disk.createFrom s.location names d := by
  obtain ⟨entries, found⟩ := s.exists_dir holds.kept
  obtain ⟨root, isRoot⟩ := FileTree.isDir_iff.mp holds.isDir
  have has := holds.has
  rw [isRoot] at has
  obtain ⟨_, last, ends⟩ := s.ends.joinAll named
  have nonempty : (s.root.joinAll names).text ≠ "" := by
    intro empty
    have absolute := ends.absolute
    simp [Path.isAbsolute, empty] at absolute
  have leads : Disk.follow d.tree [] (Text.splitOn '/' s.start ++ [s.name]) = .ok s.location := by
    rw [Disk.follow_append, Disk.follow_of_keptIn holds.kept s.leads]
    show Disk.follow d.tree s.here [s.name] = _
    rw [Disk.follow_cons, Disk.advance_name s.ends.named found, if_neg (not_lt.mpr s.fits)]
    rfl
  rw [Disk.createDirAll_run nonempty, Disk.start, if_pos ends.absolute,
    s.ends.segments_joinAll named, s.ends.segments, Disk.createFrom_append leads has]

/-- What a path below a site leads to. -/
theorem Holds.lookup (holds : s.Holds d t) (named : ∀ n ∈ names, Path.isName n = true) :
    d.lookup (s.root.joinAll names) = (s.reach t names).bind fun _ =>
      match t.at? names with
      | some tree => .ok tree
      | none => .error .missing := by
  rw [Disk.lookup, holds.locate named]
  cases s.reach t names with
  | error fault => rfl
  | ok =>
    show (match d.tree.at? (s.location ++ names) with
      | some tree => return tree
      | none => throw .missing : Except FileFault FileTree) = _
    rw [holds.at?]
    cases t.at? names <;> rfl

/-- Sites whose paths are equally long. -/
def Twin (s s' : Site) : Prop := s.root.text.utf8ByteSize = s'.root.text.utf8ByteSize

/-- A site is its own twin. -/
theorem Twin.refl (s : Site) : s.Twin s := rfl

/-- From twins a path leads along the same names, in the same tree. -/
theorem Twin.reach (twin : s.Twin s') (named : ∀ n ∈ names, Path.isName n = true) (t : FileTree) :
    s.reach t names = s'.reach t names := by
  rw [Site.reach, Site.reach, s.ends.joinAll_eq named, s'.ends.joinAll_eq named,
    Disk.checkPath_append_congr s.possible s'.possible twin]

/-- What a path leads to below twins is the same, if both have the same tree. -/
theorem Twin.lookup (twin : s.Twin s') {d' : Disk} (holds : s.Holds d t) (holds' : s'.Holds d' t)
    (named : ∀ n ∈ names, Path.isName n = true) :
    d.lookup (s.root.joinAll names) = d'.lookup (s'.root.joinAll names) := by
  rw [holds.lookup named, holds'.lookup named, twin.reach named]

/-! ## Changes below a site -/

/-- Two steps on disks change the trees of two sites in the same way, and both succeed or both fail. -/
inductive Changes (s s' : Site) (d d' : Disk) :
    EStateM.Result FileFault Disk Unit → EStateM.Result FileFault Disk Unit → Prop where
  | ok {u : FileTree} (isDir : u.isDir = true) (wf : u.WellFormed) :
    Changes s s' d d' (.ok () (d.put (some u) s.location)) (.ok () (d'.put (some u) s'.location))
  | error {u : FileTree} (isDir : u.isDir = true) (wf : u.WellFormed) (fault fault' : FileFault) :
    Changes s s' d d' (.error fault (d.put (some u) s.location))
      (.error fault' (d'.put (some u) s'.location))

section
variable {d' : Disk} {r r' : EStateM.Result FileFault Disk Unit}

/-- Steps that fail before they change anything. -/
theorem Changes.none (holds : s.Holds d t) (holds' : s'.Holds d' t) (fault fault' : FileFault) :
    s.Changes s' d d' (.error fault d) (.error fault' d') := by
  have same : s.Changes s' d d' _ _ := .error holds.isDir holds.wellFormed_tree fault fault'
  rwa [holds.put_self, holds'.put_self] at same

/-- A change after the tree has been replaced is a change of the tree. -/
theorem Changes.after {u : FileTree}
    (later : s.Changes s' (d.put (some u) s.location) (d'.put (some u) s'.location) r r') :
    s.Changes s' d d' r r' := by
  cases later with
  | ok isDir wf =>
    rw [Disk.put_put, Disk.put_put]
    exact .ok isDir wf
  | error isDir wf fault fault' =>
    rw [Disk.put_put, Disk.put_put]
    exact .error isDir wf fault fault'

/-- A directory stays one when something is put in it. -/
theorem isDir_put {u : FileTree} (isDir : u.isDir = true) (x : Option FileTree) (l : Location) :
    (u.put x l).isDir = true := by
  obtain ⟨entries, rfl⟩ := FileTree.isDir_iff.mp isDir
  match l with
  | [] => rfl
  | [name] => rfl
  | name :: next :: rest =>
    rw [FileTree.put_cons_dir]
    split <;> rfl

/-- Something is put below two sites. -/
theorem Changes.put (holds : s.Holds d t) (holds' : s'.Holds d' t) {x : FileTree} (wf : x.WellFormed)
    (named : Path.isName name = true) (l : Location) :
    s.Changes s' d d' (.ok () (d.put (some x) (s.location ++ (l ++ [name]))))
      (.ok () (d'.put (some x) (s'.location ++ (l ++ [name])))) := by
  have below : l ++ [name] ≠ [] := by simp
  rw [holds.put_below _ below, holds'.put_below _ below]
  exact .ok (isDir_put holds.isDir _ _)
    (holds.wellFormed_tree.put named (FileTree.wellFormed_some wf) l)

/-- Making directories below twin sites changes both in the same way. -/
theorem changes_createFrom (names : List String) (named : ∀ n ∈ names, Path.isName n = true)
    (holds : s.Holds d t) (holds' : s'.Holds d' t) (l : Location) :
    s.Changes s' d d' (Disk.createFrom (s.location ++ l) names d)
      (Disk.createFrom (s'.location ++ l) names d') := by
  induction names generalizing l d d' t with
  | nil =>
    have same : s.Changes s' d d' _ _ := .ok holds.isDir holds.wellFormed_tree
    rwa [holds.put_self, holds'.put_self] at same
  | cons name names ih =>
    obtain ⟨first, named⟩ := List.forall_mem_cons.mp named
    rw [Disk.createFrom_cons_name first, Disk.createFrom_cons_name first]
    split
    · exact .none holds holds' _ _
    · rw [List.append_assoc, List.append_assoc, holds.at?, holds'.at?]
      split
      · exact ih named holds holds' (l ++ [name])
      · exact .none holds holds' _ _
      · have below : l ++ [name] ≠ [] := by simp
        have wf : (t.put (some (.dir [])) (l ++ [name])).WellFormed :=
          holds.wellFormed_tree.put first (FileTree.wellFormed_some FileTree.wellFormed_empty) l
        have isDir := isDir_put holds.isDir (some (.dir [])) (l ++ [name])
        have later := ih named (holds.put isDir wf) (holds'.put isDir wf) (l ++ [name])
        have made := holds.put_below (some (.dir [])) below
        have made' := holds'.put_below (some (.dir [])) below
        unfold Disk.put at made made'
        rw [made, made']
        exact later.after

/-- Making a directory below twin sites changes both in the same way. -/
theorem changes_createDir (twin : s.Twin s') (named : ∀ n ∈ names ++ [name], Path.isName n = true)
    (holds : s.Holds d t) (holds' : s'.Holds d' t) :
    s.Changes s' d d' (Disk.createDir (s.root.joinAll (names ++ [name])) d)
      (Disk.createDir (s'.root.joinAll (names ++ [name])) d') := by
  rw [Disk.createDir_run, Disk.createDir_run, holds.locate named, holds'.locate named,
    twin.reach named]
  cases s'.reach t (names ++ [name]) with
  | error fault => exact .none holds holds' _ _
  | ok =>
    simp only [Except.map]
    rw [holds.at?, holds'.at?]
    split
    · exact .none holds holds' _ _
    · exact .put holds holds' FileTree.wellFormed_empty (named name (by simp)) names

/-- Writing a file below twin sites changes both in the same way. -/
theorem changes_write (twin : s.Twin s') (named : ∀ n ∈ names ++ [name], Path.isName n = true)
    (content : Bytes) (holds : s.Holds d t) (holds' : s'.Holds d' t) :
    s.Changes s' d d' (Disk.write (s.root.joinAll (names ++ [name])) content d)
      (Disk.write (s'.root.joinAll (names ++ [name])) content d') := by
  rw [Disk.write_run, Disk.write_run, holds.locate named, holds'.locate named, twin.reach named]
  cases s'.reach t (names ++ [name]) with
  | error fault => exact .none holds holds' _ _
  | ok =>
    simp only [Except.map]
    rw [holds.at?, holds'.at?]
    split
    · exact .put holds holds' (FileTree.wellFormed_file _ _) (named name (by simp)) names
    · exact .none holds holds' _ _
    · exact .put holds holds' (FileTree.wellFormed_file _ _) (named name (by simp)) names

/-- Making a directory with those above it changes twin sites in the same way. -/
theorem changes_createDirAll (twin : s.Twin s') (named : ∀ n ∈ names, Path.isName n = true)
    (holds : s.Holds d t) (holds' : s'.Holds d' t) :
    s.Changes s' d d' (Disk.createDirAll (s.root.joinAll names) d)
      (Disk.createDirAll (s'.root.joinAll names) d') := by
  rw [holds.createDirAll named, holds'.createDirAll named, s.ends.joinAll_eq named,
    s'.ends.joinAll_eq named, Disk.checkPath_append_congr s.possible s'.possible twin]
  cases Disk.checkPath ⟨s'.root.text ++ Path.trail names⟩ with
  | error fault => exact .none holds holds' _ _
  | ok =>
    have created := changes_createFrom names named holds holds' []
    rwa [List.append_nil, List.append_nil] at created

end

end Site

end ProcessorBench
