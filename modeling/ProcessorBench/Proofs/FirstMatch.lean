import ProcessorBench.Proofs.Descending
import ProcessorBench.Proofs.StableResolution
import ProcessorBench.Proofs.StatelessLoading
import ProcessorBench.Proofs.TidySteps

/-!
# The first place that holds a class

A class path is asked for a class by its name, which may be any text. Unless the name is reserved for the
platform, the first of its places that holds the resource of the name decides alone (`ClassPath.firstMatch`), and
what has been asked for before makes no difference (`ClassPath.answers_content`). The resource of a name has its
only point in front of its ending, so that no part of it is `..`: the file that is looked for in a directory is one
in this directory, and all that is read depends on the tree of the directory alone (`ClassPathEntry.confined`).
-/

namespace ProcessorBench

/-! ## Resources -/

namespace ClassPath

variable {name segment : String}

/-- The only point in a resource is that of its ending. -/
theorem count_resourceOf (name : String) : (resourceOf name).toList.count '.' = 1 := by
  have none : (ClassName.toInternal name).toList.count '.' = 0 := by
    rw [List.count_eq_zero, ClassName.toInternal, ClassName.replaceChar, String.toList_ofList, List.mem_map]
    rintro ⟨c, _, same⟩
    split at same
    · cases same
    next other => exact other same
  rw [resourceOf, String.toList_append, List.count_append, none]
  rfl

/-- No part of a resource leads up. -/
theorem ofSegment?_ne_parent_of_mem (mem : segment ∈ Text.splitOn '/' (resourceOf name)) :
    Path.Component.ofSegment? segment ≠ some .parent := by
  obtain ⟨part, cut, rfl⟩ := List.mem_map.mp mem
  have few := (Text.sublist_of_mem_parts cut).count_le '.'
  rw [count_resourceOf] at few
  intro up
  have points : part = ['.', '.'] := by
    unfold Path.Component.ofSegment? at up
    split at up
    · cases up
    · split at up
      next same =>
        rw [← String.toList_inj, String.toList_ofList] at same
        exact same
      · cases up
  rw [points] at few
  exact absurd few (by decide)

/-- The resource of a name has at least one part. -/
theorem splitOn_resourceOf_ne_nil (name : String) : Text.splitOn '/' (resourceOf name) ≠ [] :=
  Path.segments_ne_nil ⟨resourceOf name⟩

end ClassPath

/-! ## What a place holds -/

namespace ClassPathEntry

variable {disk disk' : Disk} {name resource : String} {entry : ClassPathEntry} {dir : Path}

/-- Whether an entry holds a resource. -/
def holds (disk : Disk) (resource : String) : ClassPathEntry → Bool
  | .directory path => disk.isFile (fileOf path resource)
  | .archive _ files => files.names.contains resource

/-- An entry is passed over exactly if it does not hold what is looked for. What it holds and cannot be read is a
fault. -/
theorem read_eq_none_iff : entry.read disk resource = .ok none ↔ entry.holds disk resource = false := by
  cases entry with
  | directory path =>
    rw [read, holds]
    cases there : disk.isFile (fileOf path resource) with
    | false => simp
    | true => cases disk.read (fileOf path resource) <;> simp
  | archive path files =>
    rw [read, holds]
    by_cases listed : resource ∈ files.names
    · cases files.content? resource <;> simp [listed]
    · simp [listed]

/-- The bytes that an entry holds for a name can be read, and define a class of this name. -/
def Defines (entry : ClassPathEntry) (disk : Disk) (name : String) (c : LoadedClass) : Prop :=
  ∃ bytes, entry.read disk (ClassPath.resourceOf name) = .ok (some bytes) ∧
    LoadedClass.ofBytes bytes (.classPath entry.path) = .ok c ∧ c.name = name

/-- Where two disks lead to the same, both or neither have a file there. -/
theorem isFile_congr {p : Path} (same : (disk.lookup p).toOption = (disk'.lookup p).toOption) :
    disk.isFile p = disk'.isFile p := by
  unfold Disk.isFile
  cases found : disk.lookup p <;> cases found' : disk'.lookup p <;> rw [found, found'] at same <;> cases same
  rfl

/-- Where two disks lead to the same, the same is read. -/
theorem toOption_read_congr {p : Path} (same : (disk.lookup p).toOption = (disk'.lookup p).toOption) :
    (disk.read p).toOption = (disk'.read p).toOption := by
  unfold Disk.read
  cases found : disk.lookup p <;> cases found' : disk'.lookup p <;> rw [found, found'] at same <;> cases same <;>
    rfl

/-- What a directory gives depends on what its path leads to, and on nothing else. -/
theorem read_directory_congr (nonempty : dir.text ≠ "") (name : String)
    (same : (disk.lookup dir).toOption = (disk'.lookup dir).toOption) :
    (directory dir).read disk (ClassPath.resourceOf name) =
      (directory dir).read disk' (ClassPath.resourceOf name) := by
  have whole : ∀ s ∈ Text.splitOn '/' (ClassPath.resourceOf name), '/' ∉ s.toList :=
    fun _ => Text.not_mem_of_mem_splitOn
  have inside : ∀ s ∈ Text.splitOn '/' (ClassPath.resourceOf name), Path.Component.ofSegment? s ≠ some .parent :=
    fun _ => ClassPath.ofSegment?_ne_parent_of_mem
  have file : (disk.lookup (fileOf dir (ClassPath.resourceOf name))).toOption =
      (disk'.lookup (fileOf dir (ClassPath.resourceOf name))).toOption :=
    Disk.toOption_lookup_joinAll_congr nonempty whole inside (ClassPath.splitOn_resourceOf_ne_nil name) same
  have content := toOption_read_congr file
  rw [read, read, isFile_congr file]
  generalize disk.read (fileOf dir (ClassPath.resourceOf name)) = r at content ⊢
  generalize disk'.read (fileOf dir (ClassPath.resourceOf name)) = r' at content ⊢
  cases r <;> cases r' <;> cases content <;> rfl

/-- Looking for a name in a directory stays there: the file that is looked at is below the directory, if it leads
anywhere, and what comes of it would come of it on any disk on which the directory is the same. -/
structure Confined (disk : Disk) (dir : Path) (name : String) : Prop where
  below : ∀ l, disk.locate (fileOf dir (ClassPath.resourceOf name)) = .ok l →
    ∃ base, disk.locate dir = .ok base ∧ base <+: l
  alone : ∀ disk' : Disk, (disk'.lookup dir).toOption = (disk.lookup dir).toOption →
    (directory dir).read disk' (ClassPath.resourceOf name) = (directory dir).read disk (ClassPath.resourceOf name)

/-- **No name leads out of a directory.** -/
theorem confined (nonempty : dir.text ≠ "") (disk : Disk) (name : String) : Confined disk dir name where
  below _ located := Disk.prefix_of_locate_joinAll nonempty (fun _ => Text.not_mem_of_mem_splitOn)
    (fun _ => ClassPath.ofSegment?_ne_parent_of_mem) located
  alone _ same := read_directory_congr nonempty name same

end ClassPathEntry

/-! ## The first place -/

/-- What the platform says of a class that has not been asked for before. -/
def Platform.ask (name : String) : Except LoadError LoadedClass :=
  ((Platform.resolve name).outcome {}).1.map (·.content)

/-- The platform answers with what it has, and has no faults but that a name is missing. -/
theorem Platform.ask_eq (name : String) : ask name = (find? name).elim (.error (.notFound name)) .ok := by
  have unknown : ({} : Definitions).find? .platform name = none := rfl
  rw [ask, Platform.resolve, LoadStep.outcome_bind, LoadStep.outcome_known?, unknown]
  simp only
  cases find? name <;> rfl

/-- The platform gives the class that it has under a name. -/
theorem Platform.ask_eq_ok {name : String} {c : LoadedClass} : ask name = .ok c ↔ find? name = some c := by
  rw [ask_eq]
  cases find? name <;> simp

namespace ClassPath

variable {reader : ArchiveReader} {path : ClassPath} {disk before : Disk} {name : String} {entry : ClassPathEntry}
  {c : LoadedClass}

/-- What a class path says of a class when nothing has been asked for before. -/
def ask (path : ClassPath) (disk : Disk) (name : String) : Except LoadError LoadedClass :=
  ((path.resolve disk name).outcome {}).1.map (·.content)

/-- The first place that holds the resource of a class. -/
def firstFor? (path : ClassPath) (disk : Disk) (name : String) : Option ClassPathEntry :=
  List.find? (·.holds disk (resourceOf name)) path

/-- A reserved name is the platform's business. -/
theorem ask_of_reserved (reserved : isReserved name = true) : path.ask disk name = Platform.ask name := by
  have unknown : ({} : Definitions).find? .classPath name = none := rfl
  rw [ask, resolve, LoadStep.outcome_bind, LoadStep.outcome_known?, unknown]
  simp only
  rw [if_pos reserved]
  rfl

/-- A free name is looked for on the class path first. -/
theorem ask_of_free (free : isReserved name = false) : path.ask disk name =
    match path.find? disk name with
    | .ok (some c) => .ok c
    | .ok none => Platform.ask name
    | .error e => .error e := by
  have unknown : ({} : Definitions).find? .classPath name = none := rfl
  rw [ask, resolve, LoadStep.outcome_bind, LoadStep.outcome_known?, unknown]
  simp only
  rw [if_neg (by simp [free]), LoadStep.outcome_bind, LoadStep.outcome_ofExcept]
  rcases path.find? disk name with _ | (_ | _) <;> rfl

/-- A place that does not hold the resource of a class is passed over. -/
theorem find?_cons_of_not_holds (passed : entry.holds disk (resourceOf name) = false) :
    find? disk name (entry :: path) = path.find? disk name := by
  rw [find?, ClassPathEntry.read_eq_none_iff.mpr passed]
  rfl

/-- A place that holds the resource of a class ends the search. -/
theorem find?_cons_of_holds (held : entry.holds disk (resourceOf name) = true) :
    find? disk name (entry :: path) = find? disk name [entry] := by
  cases content : entry.read disk (resourceOf name) with
  | error e => rw [find?, find?, content, error_bind, error_bind]
  | ok bytes? =>
    cases bytes? with
    | none =>
      rw [ClassPathEntry.read_eq_none_iff, held] at content
      cases content
    | some bytes => rw [find?, find?, content, ok_bind, ok_bind]

/-- A place that holds the resource does not pass the name on. -/
theorem find?_singleton_ne_none (held : entry.holds disk (resourceOf name) = true) :
    find? disk name [entry] ≠ .ok none := by
  intro missing
  obtain ⟨bytes?, content, missing⟩ := bind_eq_ok.mp missing
  cases bytes? with
  | none =>
    rw [ClassPathEntry.read_eq_none_iff, held] at content
    cases content
  | some bytes =>
    obtain ⟨c, _, missing⟩ := bind_eq_ok.mp missing
    split at missing <;> cases missing

/-- A place alone gives a class exactly if it defines it. -/
theorem find?_singleton_eq_some_iff : find? disk name [entry] = .ok (some c) ↔ entry.Defines disk name c := by
  constructor
  · intro found
    obtain ⟨bytes?, content, found⟩ := bind_eq_ok.mp found
    cases bytes? with
    | none => cases found
    | some bytes =>
      obtain ⟨c', defines, found⟩ := bind_eq_ok.mp found
      split at found
      next same =>
        cases found
        exact ⟨bytes, content, defines, same⟩
      next => cases found
  · rintro ⟨bytes, content, defines, same⟩
    rw [find?, content, ok_bind]
    simp only
    rw [defines, ok_bind, if_pos same]
    rfl

/-- **The first place that holds the resource decides.** -/
theorem find?_of_firstFor? (first : path.firstFor? disk name = some entry) :
    path.find? disk name = find? disk name [entry] := by
  induction path with
  | nil => cases first
  | cons place rest ih =>
    rw [firstFor?, List.find?_cons] at first
    cases held : place.holds disk (resourceOf name) with
    | false =>
      rw [held] at first
      rw [find?_cons_of_not_holds held]
      exact ih first
    | true =>
      rw [held] at first
      cases first
      exact find?_cons_of_holds held

/-- If no place holds the resource, nothing is found. -/
theorem find?_of_firstFor?_eq_none (absent : path.firstFor? disk name = none) :
    path.find? disk name = .ok none := by
  induction path with
  | nil => rfl
  | cons place rest ih =>
    rw [firstFor?, List.find?_cons] at absent
    cases held : place.holds disk (resourceOf name) with
    | false =>
      rw [held] at absent
      rw [find?_cons_of_not_holds held]
      exact ih absent
    | true =>
      rw [held] at absent
      cases absent

/-- The class that is found has the name that has been asked for. -/
theorem name_of_find? (found : path.find? disk name = .ok (some c)) : c.name = name := by
  cases first : path.firstFor? disk name with
  | none =>
    rw [find?_of_firstFor?_eq_none first] at found
    cases found
  | some entry =>
    rw [find?_of_firstFor? first] at found
    obtain ⟨_, _, _, same⟩ := find?_singleton_eq_some_iff.mp found
    exact same

/-- An answer is that of the platform if the name is reserved or no place holds it; otherwise the first place that
holds it decides alone. -/
structure FirstMatch (path : ClassPath) (disk : Disk) (name : String) (answer : Except LoadError LoadedClass) :
    Prop where
  reserved : isReserved name = true → answer = Platform.ask name
  first : isReserved name = false → ∀ entry, path.firstFor? disk name = some entry →
    answer.map some = find? disk name [entry] ∧ ∀ c, answer = .ok c ↔ entry.Defines disk name c
  absent : isReserved name = false → path.firstFor? disk name = none → answer = Platform.ask name
  named : ∀ c, answer = .ok c → c.name = name

/-- **The first place that holds a class** decides what it is. -/
theorem firstMatch (path : ClassPath) (disk : Disk) (name : String) :
    path.FirstMatch disk name (path.ask disk name) where
  reserved reserved := ask_of_reserved reserved
  first free entry first := by
    have held : entry.holds disk (resourceOf name) = true := by simpa using List.find?_some first
    have alone : (path.ask disk name).map some = find? disk name [entry] := by
      rw [ask_of_free free, find?_of_firstFor? first]
      rcases found : find? disk name [entry] with e | (_ | c)
      · rfl
      · exact absurd found (find?_singleton_ne_none held)
      · rfl
    refine ⟨alone, fun c => ?_⟩
    rw [← find?_singleton_eq_some_iff, ← alone]
    cases path.ask disk name <;> simp [Except.map]
  absent free absent := by rw [ask_of_free free, find?_of_firstFor?_eq_none absent]
  named c given := by
    have platform (given : Platform.ask name = .ok c) : c.name = name := by
      obtain ⟨_, _, _, rfl⟩ := Platform.eq_classOf_of_find? (Platform.ask_eq_ok.mp given)
      rfl
    cases free : isReserved name with
    | true =>
      rw [ask_of_reserved free] at given
      exact platform given
    | false =>
      rw [ask_of_free free] at given
      split at given
      next found =>
        cases given
        exact name_of_find? found
      · exact platform given
      · cases given

/-! ## Requests in a row -/

/-- A loader that asks the class path for all classes. -/
def loader (path : ClassPath) : ClassLoader := ⟨[], .classPath path⟩

/-- What is known already makes no difference to what is answered, and stays what would be found. -/
theorem resolve_sound {d : Definitions} (sound : path.loader.Sound disk d) (name : String) :
    ((path.resolve disk name).outcome d).1.map (·.content) = path.ask disk name ∧
      path.loader.Sound disk ((path.resolve disk name).outcome d).2 := by
  obtain ⟨r, gives⟩ := ClassLoader.classPath_stateless (l := path.loader) rfl disk name
  rw [ask, (gives.outcome (ClassLoader.sound_empty _ _)).1]
  exact gives.outcome sound

/-- **What has been asked for before** makes no difference. -/
theorem answers_content {d : Definitions} (sound : path.loader.Sound disk d) (names : List String) :
    ∀ given ∈ path.answers (names.map (disk, ·)) d, given.2.map (·.content) = path.ask disk given.1 := by
  induction names generalizing d with
  | nil => nofun
  | cons name names ih =>
    obtain ⟨same, sound'⟩ := resolve_sound sound name
    rw [List.map_cons, answers]
    exact List.forall_mem_cons.mpr ⟨same, ih sound'⟩

/-- The directories of a path that has been opened have names. -/
theorem text_ne_empty_of_openBy {places : List Path} (opened : openBy reader before places = .ok path) {dir : Path}
    (mem : ClassPathEntry.directory dir ∈ path) : dir.text ≠ "" := by
  obtain ⟨entries, each, kept⟩ := bind_eq_ok.mp opened
  cases kept
  obtain ⟨item, mem, same⟩ := List.mem_filterMap.mp mem
  obtain ⟨place, _, opening⟩ := exists_mem_of_forall₂ (List.Forall₂.flip (mapM_eq_ok.mp each)) mem
  cases same
  unfold ClassPathEntry.open? at opening
  split at opening
  next found =>
    cases opening
    obtain ⟨_, located, _⟩ := Disk.lookup_eq_ok.mp found
    exact Disk.text_ne_empty_of_locate located
  next =>
    split at opening <;> cases opening
  next => cases opening

/-- **Looking up classes** in the places of a class path, whenever it was opened, while the files stay as they are:
whichever names are asked for in whichever order, each answer is the one to the name alone; the first place that
holds the name decides; and no name leads out of a directory. -/
theorem answers_firstMatch {places : List Path} (opened : openBy reader before places = .ok path) (disk : Disk) :
    (∀ names : List String, ∀ given ∈ path.answers (names.map (disk, ·)) {},
        given.2.map (·.content) = path.ask disk given.1) ∧
      (∀ name, path.FirstMatch disk name (path.ask disk name)) ∧
      ∀ dir, ClassPathEntry.directory dir ∈ path → ∀ name, ClassPathEntry.Confined disk dir name :=
  ⟨answers_content (ClassLoader.sound_empty _ _), path.firstMatch disk,
    fun _ mem => ClassPathEntry.confined (text_ne_empty_of_openBy opened mem) disk⟩

/-! ### Two directories and an archive -/

/-- A number of so many bytes, the last one first. -/
def littleEndian (size n : Nat) : Bytes := (Bytes.ofNat size n).reverse

/-- What both records of a stored file in an archive have in common. -/
def storedHeader (name content : Bytes) (checkSum : Nat) : Bytes :=
  [20, 0, 0, 0, 0, 0, 0, 0, 33, 0] ++ littleEndian 4 checkSum ++ littleEndian 4 content.length ++
    littleEndian 4 content.length ++ littleEndian 2 name.length ++ [0, 0]

/-- A stored file with the record in front of it. -/
def storedFile (name content : Bytes) (checkSum : Nat) : Bytes :=
  Archive.localSignature ++ storedHeader name content checkSum ++ name ++ content

/-- The entry in the directory for a stored file. -/
def storedEntry (name content : Bytes) (checkSum place : Nat) : Bytes :=
  Archive.directorySignature ++ [20, 0] ++ storedHeader name content checkSum ++ List.replicate 10 0 ++
    littleEndian 4 place ++ name

/-- An archive of two stored files: a class `sun.A`, and a file with a wrong check sum where a class `C` ought to be. -/
def damagedJar : Bytes :=
  let a := storedFile (Utf8.encode "sun/A.class") lateClass (Crc32.ofBytes lateClass).toNat
  let c := storedFile (Utf8.encode "C.class") [] 1
  let directory := storedEntry (Utf8.encode "sun/A.class") lateClass (Crc32.ofBytes lateClass).toNat 0 ++
    storedEntry (Utf8.encode "C.class") [] 1 a.length
  a ++ c ++ directory ++ [0x50, 0x4b, 5, 6, 0, 0, 0, 0, 2, 0, 2, 0] ++ littleEndian 4 directory.length ++
    littleEndian 4 (a ++ c).length ++ [0, 0]

/-- The files in it. -/
def damagedFiles : ArchiveFiles := (ZipArchive.reader damagedJar).getD ⟨[], fun _ => none⟩

/-- The archive can be opened, although one of its members cannot be read. -/
theorem reader_damagedJar : ZipArchive.reader damagedJar = some damagedFiles := by
  have opens : (ZipArchive.reader damagedJar).isSome = true := by decide +kernel
  obtain ⟨files, given⟩ := Option.isSome_iff_exists.mp opens
  rw [damagedFiles, given, Option.getD_some]

/-- A disk with two directories and an archive for classes. In the first directory, a class `sun.A` is where a class `B`
ought to be. -/
def misplacedDisk (jar : Bytes) : Disk :=
  ⟨.dir [⟨"first", .dir [⟨"B.class", .file lateClass false⟩]⟩, ⟨"middle.jar", .file jar false⟩,
    ⟨"second", .dir [⟨"B.class", .file [] false⟩, ⟨"C.class", .file lateClass false⟩,
      ⟨"sun", .dir [⟨"A.class", .file [] false⟩]⟩]⟩], []⟩

/-- The class path of all of them, as it is opened where a fourth place is not there. -/
def misplacedPath (files : ArchiveFiles) : ClassPath :=
  [.directory ⟨"/first"⟩, .archive ⟨"/middle.jar"⟩ files, .directory ⟨"/second"⟩]

/-- A place that is missing is left out when the path is opened. -/
theorem openBy_misplaced {reader : ArchiveReader} {jar : Bytes} {files : ArchiveFiles}
    (read : reader jar = some files) :
    openBy reader (misplacedDisk jar) [⟨"/none"⟩, ⟨"/first"⟩, ⟨"/middle.jar"⟩, ⟨"/second"⟩] =
      .ok (misplacedPath files) := by
  have archive : ClassPathEntry.open? reader (misplacedDisk jar) ⟨"/middle.jar"⟩ =
      .ok (some (.archive ⟨"/middle.jar"⟩ files)) := by
    have found : (misplacedDisk jar).lookup ⟨"/middle.jar"⟩ = .ok (.file jar false) := rfl
    rw [ClassPathEntry.open?, found]
    simp only [read]
  have each : [⟨"/none"⟩, ⟨"/first"⟩, ⟨"/middle.jar"⟩, ⟨"/second"⟩].mapM
      (ClassPathEntry.open? reader (misplacedDisk jar)) = .ok [none, some (.directory ⟨"/first"⟩),
        some (.archive ⟨"/middle.jar"⟩ files), some (.directory ⟨"/second"⟩)] :=
    mapM_eq_ok.mpr (.cons rfl (.cons rfl (.cons archive (.cons rfl .nil))))
  rw [openBy, each]
  rfl

/-- The archive is asked before the second directory, and not after the first. -/
theorem answers_firstMatch_misplaced :
    openBy ZipArchive.reader (misplacedDisk damagedJar)
        [⟨"/none"⟩, ⟨"/first"⟩, ⟨"/middle.jar"⟩, ⟨"/second"⟩] = .ok (misplacedPath damagedFiles) ∧
      (∀ given ∈ (misplacedPath damagedFiles).answers
          (["sun.A", "B", "C", "sun.A", "java.lang.Object"].map (misplacedDisk damagedJar, ·)) {},
        given.2.map (·.content) = (misplacedPath damagedFiles).ask (misplacedDisk damagedJar) given.1) ∧
      (∀ name, (misplacedPath damagedFiles).FirstMatch (misplacedDisk damagedJar) name
        ((misplacedPath damagedFiles).ask (misplacedDisk damagedJar) name)) ∧
      ((misplacedPath damagedFiles).ask (misplacedDisk damagedJar) "sun.A").map (·.origin) =
        .ok (.classPath ⟨"/middle.jar"⟩) ∧
      ((misplacedPath damagedFiles).ask (misplacedDisk damagedJar) "B").map (·.origin) =
        .error (.wrongName "B" "sun.A") ∧
      ((misplacedPath damagedFiles).ask (misplacedDisk damagedJar) "C").map (·.origin) =
        .error (.archive ⟨"/middle.jar"⟩) ∧
      ∀ name, ClassPathEntry.Confined (misplacedDisk damagedJar) ⟨"/second"⟩ name := by
  have opened := openBy_misplaced reader_damagedJar
  obtain ⟨same, first, confined⟩ := answers_firstMatch opened (misplacedDisk damagedJar)
  exact ⟨opened, same _, first, by decide +kernel, by decide +kernel, by decide +kernel,
    confined ⟨"/second"⟩ (by simp [misplacedPath])⟩

end ClassPath

end ProcessorBench
