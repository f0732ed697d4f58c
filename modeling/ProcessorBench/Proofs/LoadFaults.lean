import ProcessorBench.Proofs.FirstMatch

/-!
# What failures to load a class report

A class cannot be loaded for one of four reasons: the bytes that are kept for its name are malformed, they define
another class, nothing is kept for the name, or what is kept cannot be read (`ClassLoader.faultOf?`). The report of a
reason is under the name that was asked for (`LoadFault.report`), but for malformed bytes of a class path: these are
reported under the name that they tell themselves (`LoadedClass.ofBytes_eq`). So a failure names the class that was
asked for unless it is of this kind, and the bytes tell another name or none (`ClassLoader.Misnamed`).
-/

namespace ProcessorBench

/-! ## What bytes tell -/

namespace LoadedClass

variable {bytes : Bytes} {origin : ClassOrigin} {c : LoadedClass} {source : ClassError}

/-- The class that some bytes define, or what is wrong with them. -/
def read (bytes : Bytes) (origin : ClassOrigin) : Except ClassError LoadedClass := do
  let c ← ClassFile.parse bytes
  describe c (← c.name) origin

/-- The name that some bytes tell, even if they go wrong behind it. -/
def toldName? (bytes : Bytes) : Option String := ((ClassFile.parse bytes).bind (·.name)).toOption

/-- Defining a class from bytes fails at one of several stages. Where the name is known by then, the report is under
this name. -/
theorem ofBytes_eq (bytes : Bytes) (origin : ClassOrigin) :
    ofBytes bytes origin = (read bytes origin).mapError (.malformed ((toldName? bytes).getD unknownName)) := by
  unfold ofBytes read toldName?
  cases ClassFile.parse bytes with
  | error e => rfl
  | ok c =>
    simp only [Except.mapError, ok_bind, Except.bind]
    cases c.name with
    | error e => rfl
    | ok name =>
      simp only [ok_bind]
      cases describe c name origin <;> rfl

/-- Whatever is wrong with bytes of the table is reported under the name that was asked for. -/
theorem defineOwn_eq (bytes : Bytes) (name : String) : ClassLoader.defineOwn name bytes =
    match read bytes .isolated with
    | .ok c => if c.name = name then .ok c else .error (.wrongName name c.name)
    | .error source => .error (.malformed name source) := by
  rw [ClassLoader.defineOwn, ofBytes_eq]
  cases read bytes .isolated <;> rfl

end LoadedClass

/-! ## Why loading fails -/

/-- A reason why a class cannot be loaded. -/
inductive LoadFault where
  /-- The bytes for the name are malformed. -/
  | malformed (source : ClassError)
  /-- The bytes for the name define another class. -/
  | another (found : String)
  /-- Nothing is found. -/
  | missing
  /-- What has been found cannot be read. -/
  | unreadable (e : LoadError)
deriving DecidableEq

/-- The report of a reason under the name that was asked for. -/
def LoadFault.report (name : String) : LoadFault → LoadError
  | malformed source => .malformed name source
  | another found => .wrongName name found
  | missing => .notFound name
  | unreadable e => e

namespace ClassLoader

variable {l : ClassLoader} {path : ClassPath} {disk : Disk} {d : Definitions} {name : String} {e : LoadError}

/-- The bytes that are found for a name, and where they come from: those of the table, or else those of the first
place of the class path that holds any. -/
def sought (l : ClassLoader) (path : ClassPath) (disk : Disk) (name : String) :
    Except LoadError (Option (ClassOrigin × Bytes)) :=
  match l.bytesOf? name with
  | some bytes => .ok (some (.isolated, bytes))
  | none =>
    if ClassPath.isReserved name then .ok none
    else
      match path.firstFor? disk name with
      | some entry => (entry.read disk (ClassPath.resourceOf name)).map (·.map (.classPath entry.path, ·))
      | none => .ok none

/-- Why a class cannot be loaded, if so, as far as the table, the class path and the platform tell. -/
def faultOf? (l : ClassLoader) (path : ClassPath) (disk : Disk) (name : String) : Option LoadFault :=
  match l.sought path disk name with
  | .ok (some (origin, bytes)) =>
    match LoadedClass.read bytes origin with
    | .ok c => if c.name = name then none else some (.another c.name)
    | .error source => some (.malformed source)
  | .ok none => if (Platform.find? name).isSome then none else some .missing
  | .error e => some (.unreadable e)

/-- The bytes for a name are malformed bytes of a class path, and tell another name, or none at all. -/
def Misnamed (l : ClassLoader) (path : ClassPath) (disk : Disk) (name : String) : Prop :=
  ∃ place bytes source, l.sought path disk name = .ok (some (.classPath place, bytes)) ∧
    LoadedClass.read bytes (.classPath place) = .error source ∧
    (LoadedClass.toldName? bytes).getD LoadedClass.unknownName ≠ name

/-- Malformed bytes of a class path are the only ones to be misnamed. -/
theorem not_misnamed_of_ne {fault : LoadFault} (given : l.faultOf? path disk name = some fault)
    (other : ∀ source, fault ≠ .malformed source) : ¬ l.Misnamed path disk name := by
  rintro ⟨place, bytes, source, sought, faulty, _⟩
  simp only [faultOf?, sought, faulty, Option.some.injEq] at given
  exact other source given.symm

/-- A class of the table that cannot be loaded. -/
theorem error_of_owned {bytes : Bytes} (owned : l.bytesOf? name = some bytes)
    (failed : ((l.load disk name).outcome d).1 = .error e) :
    ∃ fault, l.faultOf? path disk name = some fault ∧ e = fault.report name ∧ ¬ l.Misnamed path disk name := by
  have sought : l.sought path disk name = .ok (some (.isolated, bytes)) := by rw [ClassLoader.sought, owned]
  -- Bytes of the table are reported under the name they are asked for, so only others can be misnamed.
  have straight : ¬ l.Misnamed path disk name := by
    rintro ⟨place, bytes', source, sought', _⟩
    rw [sought] at sought'
    cases sought'
  cases known : d.find? .isolated name with
  | some definition =>
    rw [load_of_known owned known] at failed
    cases failed
  | none =>
    cases defined : defineOwn name bytes with
    | ok content =>
      rw [load_of_ok owned known defined] at failed
      cases failed
    | error e' =>
      rw [load_of_error owned known defined] at failed
      cases failed
      rw [LoadedClass.defineOwn_eq] at defined
      rw [faultOf?, sought]
      cases made : LoadedClass.read bytes .isolated with
      | error source =>
        rw [made] at defined
        cases defined
        exact ⟨.malformed source, by simp only [made], rfl, straight⟩
      | ok c =>
        rw [made] at defined
        simp only at defined
        split at defined
        · cases defined
        next other =>
          cases defined
          exact ⟨.another c.name, by simp only [made, if_neg other], rfl, straight⟩

/-- A class that a place of the class path holds, and that cannot be loaded. -/
theorem error_of_place {entry : ClassPathEntry} (unowned : l.bytesOf? name = none)
    (free : ClassPath.isReserved name = false) (first : path.firstFor? disk name = some entry)
    (failed : ClassPath.find? disk name [entry] = .error e) :
    ∃ fault, l.faultOf? path disk name = some fault ∧ (e = fault.report name ↔ ¬ l.Misnamed path disk name) := by
  have sought : l.sought path disk name =
      (entry.read disk (ClassPath.resourceOf name)).map (·.map (.classPath entry.path, ·)) := by
    rw [ClassLoader.sought, unowned, free, first]
    rfl
  -- What is no malformed class is reported as it should be.
  have straight (fault : LoadFault) (given : l.faultOf? path disk name = some fault)
      (other : ∀ source, fault ≠ .malformed source) (same : e = fault.report name) :
      ∃ fault, l.faultOf? path disk name = some fault ∧ (e = fault.report name ↔ ¬ l.Misnamed path disk name) :=
    ⟨fault, given, iff_of_true same (not_misnamed_of_ne given other)⟩
  rcases bind_eq_error.mp failed with unreadable | ⟨bytes?, content, failed⟩
  · rw [unreadable] at sought
    exact straight (.unreadable e) (by rw [faultOf?, sought]; rfl) (fun _ => nofun) rfl
  cases bytes? with
  | none => cases failed
  | some bytes =>
    rw [content] at sought
    simp only [Except.map, Option.map_some] at sought
    simp only [LoadedClass.ofBytes_eq] at failed
    cases made : LoadedClass.read bytes (.classPath entry.path) with
    | error source =>
      rw [made] at failed
      cases failed
      refine ⟨.malformed source, by simp only [faultOf?, sought, made], ?_⟩
      rw [LoadFault.report, LoadError.malformed.injEq]
      constructor
      · rintro ⟨told, _⟩ ⟨place, bytes', source', sought', _, other⟩
        rw [sought] at sought'
        cases sought'
        exact other told
      · intro straight
        refine ⟨?_, rfl⟩
        by_contra other
        exact straight ⟨_, bytes, source, sought, made, other⟩
    | ok c =>
      rw [made] at failed
      simp only [Except.mapError, ok_bind] at failed
      split at failed
      · cases failed
      next other =>
        cases failed
        exact straight (.another c.name) (by simp only [faultOf?, sought, made, if_neg other]) (fun _ => nofun) rfl

/-- A class that neither the table nor the class path has, nor the platform. -/
theorem error_of_missing (unowned : l.bytesOf? name = none)
    (absent : ClassPath.isReserved name = true ∨ path.find? disk name = .ok none)
    (missing : Platform.find? name = none) : l.faultOf? path disk name = some .missing := by
  have sought : l.sought path disk name = .ok none := by
    rw [ClassLoader.sought, unowned]
    cases reserved : ClassPath.isReserved name with
    | true => rfl
    | false =>
      have absent := absent.resolve_left (by simp [reserved])
      cases first : path.firstFor? disk name with
      | none => rfl
      | some entry =>
        rw [ClassPath.find?_of_firstFor? first] at absent
        have held : entry.holds disk (ClassPath.resourceOf name) = true := by simpa using List.find?_some first
        exact absurd absent (ClassPath.find?_singleton_ne_none held)
  rw [faultOf?, sought]
  simp [missing]

/-- **A failure to load a class** has one of four reasons, whatever has been loaded before, and it is reported under
the name that was asked for unless the bytes are malformed ones of a class path that tell another name, or none. -/
theorem load_error_iff (parent : l.parent = .classPath path)
    (failed : ((l.load disk name).outcome d).1 = .error e) :
    ∃ fault, l.faultOf? path disk name = some fault ∧ (e = fault.report name ↔ ¬ l.Misnamed path disk name) := by
  cases owned : l.bytesOf? name with
  | some bytes =>
    obtain ⟨fault, given, same, straight⟩ := error_of_owned owned failed
    exact ⟨fault, given, iff_of_true same straight⟩
  | none =>
    rw [load_of_unowned owned, parent] at failed
    have resolves := path.resolves disk name d
    have same : ParentLoader.resolve disk (.classPath path) name = path.resolve disk name := rfl
    rw [same] at failed
    rw [failed] at resolves
    generalize ((path.resolve disk name).outcome d).2 = d' at resolves
    cases resolves with
    | fails _ free fault =>
      cases first : path.firstFor? disk name with
      | none =>
        rw [ClassPath.find?_of_firstFor?_eq_none first] at fault
        cases fault
      | some entry =>
        rw [ClassPath.find?_of_firstFor? first] at fault
        exact error_of_place owned free first fault
    | delegates _ absent platform =>
      cases platform with
      | fails _ missing =>
        have given := error_of_missing owned absent missing
        exact ⟨.missing, given, iff_of_true rfl (not_misnamed_of_ne given fun _ => nofun)⟩

/-- A disk with a directory in which the file of the class `A` is malformed. -/
def malformedDisk : Disk := ⟨.dir [⟨"classes", .dir [⟨"A.class", .file [0] false⟩]⟩], []⟩

/-- A loader with malformed bytes for a class `T`, and that directory for all others. -/
def malformedLoader : ClassLoader := ⟨[("T", [0])], .classPath [.directory ⟨"/classes"⟩]⟩

/-- A fault is not of what is made of the result. -/
theorem eq_error_of_map {α β : Type} (f : α → β) {x : Except LoadError α} (failed : x.map f = .error e) :
    x = .error e := by
  cases x <;> cases failed
  rfl

/-- Bytes in the table that are malformed are reported under their own name. -/
theorem load_error_iff_table :
    ((malformedLoader.load malformedDisk "T").outcome {}).1 = .error (.malformed "T" (.truncated 0 3)) ∧
      ∃ fault, malformedLoader.faultOf? [.directory ⟨"/classes"⟩] malformedDisk "T" = some fault ∧
        (LoadError.malformed "T" (.truncated 0 3) = fault.report "T" ↔
          ¬ malformedLoader.Misnamed [.directory ⟨"/classes"⟩] malformedDisk "T") := by
  have failed : ((malformedLoader.load malformedDisk "T").outcome {}).1 =
      .error (.malformed "T" (.truncated 0 3)) :=
    eq_error_of_map (·.content.origin) (by decide +kernel)
  exact ⟨failed, load_error_iff rfl failed⟩

/-- **Not every failure names the class that was asked for**: the malformed bytes of the directory are reported as
those of an unknown class. -/
theorem load_unnamed : ¬ ∀ e fault, ((malformedLoader.load malformedDisk "A").outcome {}).1 = .error e →
    malformedLoader.faultOf? [.directory ⟨"/classes"⟩] malformedDisk "A" = some fault → e = fault.report "A" := by
  intro named
  have failed : ((malformedLoader.load malformedDisk "A").outcome {}).1 =
      .error (.malformed "<unknown>" (.truncated 0 3)) :=
    eq_error_of_map (·.content.origin) (by decide +kernel)
  have reason : malformedLoader.faultOf? [.directory ⟨"/classes"⟩] malformedDisk "A" =
      some (.malformed (.truncated 0 3)) := by decide +kernel
  have same := named _ _ failed reason
  exact absurd same (by decide)

end ClassLoader

end ProcessorBench
