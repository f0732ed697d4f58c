import ProcessorBench.Proofs.SequentialLoading

/-!
# One definition for a name over the life of a class path

A class path is asked for classes while the directories in it change. Nothing that it has defined from one of
its places is ever given up, and neither is what the platform has defined. The two do not know of each
other, though: `ClassPath.answers_same_iff` says that a name gets the same definition all the time unless
the platform stands in for a class that turns up on the class path later.
-/

namespace ProcessorBench

namespace ClassPath

variable {path : ClassPath} {disk : Disk} {name : String} {requests : List (Disk × String)}
  {d : Definitions}

/-! ## Requests and answers -/

/-- The answers to some requests, one after the other. Each is made on the disk as it is by then. -/
def answers (path : ClassPath) :
    List (Disk × String) → Definitions → List (String × Except LoadError Definition)
  | [], _ => []
  | (disk, name) :: requests, d =>
    let (answer, d) := (path.resolve disk name).outcome d
    (name, answer) :: answers path requests d

/-- All requests for a name that succeed are answered with the same definition. -/
def SameAnswer (answers : List (String × Except LoadError Definition)) (name : String) : Prop :=
  ∀ a b, (name, .ok a) ∈ answers → (name, .ok b) ∈ answers → a = b

/-- A request for the name, made when a place of the class path holds its class. -/
def Finds (path : ClassPath) (name : String) (request : Disk × String) : Prop :=
  request.2 = name ∧ ∃ content, path.find? request.1 name = .ok (some content)

/-- The platform stands in for a class at first: it has one of the name, which is not reserved for it, and
a request comes when no place of the class path holds the name, none having been found before. Later a
request comes when a place does. -/
def Overtaken (path : ClassPath) (name : String) (requests : List (Disk × String)) : Prop :=
  isReserved name = false ∧ (Platform.find? name).isSome ∧
    ∃ earlier disk later, requests = earlier ++ (disk, name) :: later ∧
      (∀ r ∈ earlier, ¬ path.Finds name r) ∧ path.find? disk name = .ok none ∧
      ∃ r ∈ later, path.Finds name r

end ClassPath

/-! ## What a request can do -/

/-- How the platform answers. -/
inductive Platform.Resolves (name : String) (d : Definitions) :
    Except LoadError Definition → Definitions → Prop where
  | knows {definition : Definition} (known : d.find? .platform name = some definition) :
    Resolves name d (.ok definition) d
  | defines {content : LoadedClass} (unknown : d.find? .platform name = none)
    (has : Platform.find? name = some content) :
    Resolves name d (.ok ⟨d.count, content⟩) (d.add .platform name content)
  | fails (unknown : d.find? .platform name = none) (missing : Platform.find? name = none) :
    Resolves name d (.error (.notFound name)) d

/-- What the platform does about a request is one of what it can do. -/
theorem Platform.resolves (name : String) (d : Definitions) :
    Platform.Resolves name d ((Platform.resolve name).outcome d).1
      ((Platform.resolve name).outcome d).2 := by
  simp only [Platform.resolve, LoadStep.outcome_bind, LoadStep.outcome_known?]
  cases known : d.find? .platform name with
  | some definition => exact .knows known
  | none =>
    simp only
    split
    next content has => exact .defines known has
    next missing => exact .fails known missing

/-- How a class path answers. -/
inductive ClassPath.Resolves (path : ClassPath) (disk : Disk) (name : String) (d : Definitions) :
    Except LoadError Definition → Definitions → Prop where
  | knows {definition : Definition} (known : d.find? .classPath name = some definition) :
    Resolves path disk name d (.ok definition) d
  | defines {content : LoadedClass} (unknown : d.find? .classPath name = none)
    (free : isReserved name = false) (found : path.find? disk name = .ok (some content)) :
    Resolves path disk name d (.ok ⟨d.count, content⟩) (d.add .classPath name content)
  | fails {e : LoadError} (unknown : d.find? .classPath name = none)
    (free : isReserved name = false) (fault : path.find? disk name = .error e) :
    Resolves path disk name d (.error e) d
  | delegates {answer : Except LoadError Definition} {d' : Definitions}
    (unknown : d.find? .classPath name = none)
    (absent : isReserved name = true ∨ path.find? disk name = .ok none)
    (platform : Platform.Resolves name d answer d') : Resolves path disk name d answer d'

namespace ClassPath

variable {path : ClassPath} {disk : Disk} {name : String} {requests : List (Disk × String)}
  {d d' : Definitions} {answer : Except LoadError Definition}

/-- What a class path does about a request is one of what it can do. -/
theorem resolves (path : ClassPath) (disk : Disk) (name : String) (d : Definitions) :
    path.Resolves disk name d ((path.resolve disk name).outcome d).1
      ((path.resolve disk name).outcome d).2 := by
  simp only [resolve, LoadStep.outcome_bind, LoadStep.outcome_known?]
  cases known : d.find? .classPath name with
  | some definition => exact .knows known
  | none =>
    simp only
    split
    next reserved => exact .delegates known (.inl reserved) (Platform.resolves name d)
    next free =>
      have free : isReserved name = false := Bool.eq_false_iff.mpr free
      rw [LoadStep.outcome_bind, LoadStep.outcome_ofExcept]
      cases found : path.find? disk name with
      | error e => exact .fails known free found
      | ok content =>
        cases content with
        | some content => exact .defines known free found
        | none => exact .delegates known (.inr found) (Platform.resolves name d)

/-- Only requests for a name define it. -/
theorem Resolves.find?_other (resolves : path.Resolves disk name d answer d') {definer : Definer}
    {name' : String} (other : name' ≠ name) : d'.find? definer name' = d.find? definer name' := by
  have added (definer' : Definer) (content : LoadedClass) :
      (d.add definer' name content).find? definer name' = d.find? definer name' := by
    rw [Definitions.find?_add, if_neg]
    rintro ⟨_, same⟩
    exact other same
  cases resolves with
  | knows | fails => rfl
  | defines => exact added _ _
  | delegates _ _ platform =>
    cases platform with
    | knows | fails => rfl
    | defines => exact added _ _

end ClassPath

/-! ## Who has defined a class -/

/-- A class of the platform has been made up from what is known of it. -/
theorem Platform.eq_classOf_of_find? {name : String} {content : LoadedClass} (has : find? name = some content) :
    ∃ access superName interfaces, content = classOf name access superName interfaces := by
  unfold find? at has
  -- Every branch that gives a class gives one of `classOf`.
  split at has
  · cases has; exact ⟨_, _, _, rfl⟩
  split at has
  · cases has; exact ⟨_, _, _, rfl⟩
  split at has
  · cases has; exact ⟨_, _, _, rfl⟩
  split at has
  · cases has; exact ⟨_, _, _, rfl⟩
  split at has
  · cases has; exact ⟨_, _, _, rfl⟩
  · cases has

/-- A class of the platform is from the platform. -/
theorem Platform.origin_of_find? {name : String} {content : LoadedClass}
    (has : find? name = some content) : content.origin = .platform := by
  obtain ⟨_, _, _, rfl⟩ := eq_classOf_of_find? has
  rfl

/-- A class on the class path is from one of its places. -/
theorem ClassPath.origin_of_find? {path : ClassPath} {disk : Disk} {name : String}
    {content : LoadedClass} (found : path.find? disk name = .ok (some content)) :
    ∃ place, content.origin = .classPath place := by
  induction path with
  | nil => cases found
  | cons entry rest ih =>
    obtain ⟨bytes, _, found⟩ := bind_eq_ok.mp found
    cases bytes with
    | none => exact ih found
    | some bytes =>
      obtain ⟨c, defines, found⟩ := bind_eq_ok.mp found
      split at found
      · cases found
        exact ⟨entry.path, LoadedClass.origin_of_ofBytes defines⟩
      · cases found

/-- What can be said of the definitions of a name, whatever was asked for on whatever disks: that of the
platform is in its table, and that of the class path is not one of the platform. -/
structure Definitions.Tidy (d : Definitions) (name : String) : Prop where
  platform : ∀ definition, d.find? .platform name = some definition →
    Platform.find? name = some definition.content
  classPath : ∀ definition, d.find? .classPath name = some definition →
    definition.content.origin ≠ .platform

/-- Nothing defined is in order. -/
theorem Definitions.tidy_empty (name : String) : ({} : Definitions).Tidy name := ⟨nofun, nofun⟩

/-- Defining a class of the platform leaves the definitions in order. -/
theorem Definitions.Tidy.definePlatform {d : Definitions} {name : String} (tidy : d.Tidy name)
    {content : LoadedClass} (has : Platform.find? name = some content) :
    (d.add .platform name content).Tidy name where
  platform definition known := by
    rw [find?_add_self] at known
    cases known
    exact has
  classPath definition known := by
    rw [find?_add_of_ne d (by decide)] at known
    exact tidy.classPath definition known

/-- Defining a class that has been found leaves the definitions in order. -/
theorem Definitions.Tidy.defineFound {d : Definitions} {name : String} (tidy : d.Tidy name)
    {content : LoadedClass} (other : content.origin ≠ .platform) :
    (d.add .classPath name content).Tidy name where
  platform definition known := by
    rw [find?_add_of_ne d (by decide)] at known
    exact tidy.platform definition known
  classPath definition known := by
    rw [find?_add_self] at known
    cases known
    exact other

namespace ClassPath

variable {path : ClassPath} {disk : Disk} {name : String} {requests : List (Disk × String)}
  {d d' : Definitions} {answer : Except LoadError Definition}

/-- **One request** leaves tidy what was tidy. -/
theorem Resolves.tidy {name' : String} (resolves : path.Resolves disk name' d answer d')
    (tidy : d.Tidy name) : d'.Tidy name := by
  by_cases same : name = name'
  · subst same
    cases resolves with
    | knows | fails => exact tidy
    | defines _ _ found =>
      obtain ⟨place, origin⟩ := origin_of_find? found
      apply tidy.defineFound
      rw [origin]
      nofun
    | delegates _ _ platform =>
      cases platform with
      | knows | fails => exact tidy
      | defines _ has => exact tidy.definePlatform has
  · constructor
    · intro definition known
      rw [resolves.find?_other same] at known
      exact tidy.platform definition known
    · intro definition known
      rw [resolves.find?_other same] at known
      exact tidy.classPath definition known

/-! ## Runs of requests -/

/-- The first request is answered before the others. -/
theorem answers_cons (path : ClassPath) (disk : Disk) (name : String)
    (requests : List (Disk × String)) (d : Definitions) :
    ∃ answer d', path.Resolves disk name d answer d' ∧
      path.answers ((disk, name) :: requests) d = (name, answer) :: path.answers requests d' :=
  ⟨_, _, path.resolves disk name d, rfl⟩

/-- A class that the class path has defined is never defined again. -/
theorem answer_of_known {known : Definition} (has : d.find? .classPath name = some known) :
    ∀ a, (name, .ok a) ∈ path.answers requests d → a = known := by
  induction requests generalizing d with
  | nil => nofun
  | cons request requests ih =>
    obtain ⟨disk, other⟩ := request
    obtain ⟨answer, d', step, run⟩ := path.answers_cons disk other requests d
    intro a mem
    rw [run, List.mem_cons] at mem
    by_cases same : name = other
    · subst same
      cases step with
      | knows known' =>
        cases known'.symm.trans has
        rcases mem with mem | mem
        · cases mem
          rfl
        · exact ih has a mem
      | defines unknown | fails unknown | delegates unknown => cases unknown.symm.trans has
    · rcases mem with mem | mem
      · cases mem
        exact absurd rfl same
      · exact ih ((step.find?_other same).trans has) a mem

/-- As long as no place of the class path holds a name, whoever asks for it gets what the platform has
defined. -/
theorem answer_of_platform {known : Definition} (unknown : d.find? .classPath name = none)
    (has : d.find? .platform name = some known)
    (never : isReserved name = true ∨ ∀ r ∈ requests, ¬ path.Finds name r) :
    ∀ a, (name, .ok a) ∈ path.answers requests d → a = known := by
  induction requests generalizing d with
  | nil => nofun
  | cons request requests ih =>
    obtain ⟨disk, other⟩ := request
    have later : isReserved name = true ∨ ∀ r ∈ requests, ¬ path.Finds name r :=
      never.imp_right fun never r mem => never r (List.mem_cons_of_mem _ mem)
    obtain ⟨answer, d', step, run⟩ := path.answers_cons disk other requests d
    intro a mem
    rw [run, List.mem_cons] at mem
    by_cases same : name = other
    · subst same
      cases step with
      | knows known => cases unknown.symm.trans known
      | @defines content _ free found =>
        rcases never with reserved | never
        · cases free.symm.trans reserved
        · exact absurd ⟨rfl, content, found⟩ (never _ List.mem_cons_self)
      | fails =>
        rcases mem with mem | mem
        · cases mem
        · exact ih unknown has later a mem
      | delegates _ _ platform =>
        cases platform with
        | knows known' =>
          cases known'.symm.trans has
          rcases mem with mem | mem
          · cases mem
            rfl
          · exact ih unknown has later a mem
        | defines unknown' | fails unknown' => cases unknown'.symm.trans has
    · rcases mem with mem | mem
      · cases mem
        exact absurd rfl same
      · exact ih ((step.find?_other same).trans unknown) ((step.find?_other same).trans has) later a
          mem

/-- A request that finds a name on the class path is answered, and not by the platform. -/
theorem exists_answer_of_finds (tidy : d.Tidy name) (free : isReserved name = false)
    {request : Disk × String} (mem : request ∈ requests) (finds : path.Finds name request) :
    ∃ a, (name, .ok a) ∈ path.answers requests d ∧ a.content.origin ≠ .platform := by
  induction requests generalizing d with
  | nil => cases mem
  | cons first requests ih =>
    obtain ⟨disk, other⟩ := first
    obtain ⟨answer, d', step, run⟩ := path.answers_cons disk other requests d
    rw [run]
    rcases List.mem_cons.mp mem with rfl | mem
    · obtain ⟨rfl, content, found⟩ := finds
      cases step with
      | @knows definition known =>
        exact ⟨definition, List.mem_cons_self, tidy.classPath definition known⟩
      | defines _ _ found =>
        obtain ⟨place, origin⟩ := origin_of_find? found
        refine ⟨_, List.mem_cons_self, ?_⟩
        rw [origin]
        nofun
      | fails _ _ fault => cases found.symm.trans fault
      | delegates _ absent _ =>
        rcases absent with reserved | absent
        · cases free.symm.trans reserved
        · cases found.symm.trans absent
    · obtain ⟨a, mem, other⟩ := ih (step.tidy tidy) mem
      exact ⟨a, List.mem_cons_of_mem _ mem, other⟩

/-! ## When answers agree -/

/-- An answer that gives no class makes no difference. -/
theorem sameAnswer_cons_of_ne {answers : List (String × Except LoadError Definition)}
    {given : String × Except LoadError Definition} (silent : ∀ a, given ≠ (name, .ok a)) :
    SameAnswer (given :: answers) name ↔ SameAnswer answers name := by
  constructor
  · intro same a b first second
    exact same a b (List.mem_cons_of_mem _ first) (List.mem_cons_of_mem _ second)
  · intro same a b first second
    rcases List.mem_cons.mp first with first | first
    · exact absurd first.symm (silent a)
    · rcases List.mem_cons.mp second with second | second
      · exact absurd second.symm (silent b)
      · exact same a b first second

/-- Answers are the same if all are like the first one. -/
theorem sameAnswer_of_forall_eq {answers : List (String × Except LoadError Definition)}
    {first : Definition} (all : ∀ a, (name, .ok a) ∈ answers → a = first) :
    SameAnswer ((name, .ok first) :: answers) name := by
  have all' : ∀ a, (name, .ok a) ∈ (name, .ok first) :: answers → a = first := by
    intro a mem
    rcases List.mem_cons.mp mem with mem | mem
    · cases mem
      rfl
    · exact all a mem
  intro a b mem mem'
  rw [all' a mem, all' b mem']

/-- A request that changes nothing does not overtake. -/
theorem overtaken_cons_iff {request : Disk × String} (passes : ¬ path.Finds name request)
    (present : request.2 = name → path.find? request.1 name ≠ .ok none) :
    path.Overtaken name (request :: requests) ↔ path.Overtaken name requests := by
  constructor
  · rintro ⟨free, has, earlier, disk, later, split, before, absent, after⟩
    cases earlier with
    | nil =>
      cases split
      exact absurd absent (present rfl)
    | cons first earlier =>
      cases split
      exact ⟨free, has, earlier, disk, later, rfl,
        fun r mem => before r (List.mem_cons_of_mem _ mem), absent, after⟩
  · rintro ⟨free, has, earlier, disk, later, rfl, before, absent, after⟩
    exact ⟨free, has, request :: earlier, disk, later, rfl,
      List.forall_mem_cons.mpr ⟨passes, before⟩, absent, after⟩

/-- Who is found at first is not overtaken. -/
theorem not_overtaken_of_finds {request : Disk × String} (finds : path.Finds name request) :
    ¬ path.Overtaken name (request :: requests) := by
  rintro ⟨_, _, earlier, disk, later, split, before, absent, _⟩
  cases earlier with
  | nil =>
    cases split
    obtain ⟨_, content, found⟩ := finds
    cases found.symm.trans absent
  | cons first earlier =>
    cases split
    exact before _ List.mem_cons_self finds

/-- The platform is overtaken when the class path finds the name later. -/
theorem overtaken_cons_of_absent (free : isReserved name = false)
    (has : (Platform.find? name).isSome) (absent : path.find? disk name = .ok none) :
    path.Overtaken name ((disk, name) :: requests) ↔ ∃ r ∈ requests, path.Finds name r := by
  constructor
  · rintro ⟨_, _, earlier, disk', later, split, _, _, r, mem, finds⟩
    refine ⟨r, ?_, finds⟩
    cases earlier with
    | nil =>
      cases split
      exact mem
    | cons first earlier =>
      cases split
      exact List.mem_append_right _ (List.mem_cons_of_mem _ mem)
  · rintro later
    exact ⟨free, has, [], disk, requests, rfl, nofun, absent, later⟩

/-- Reserved names are not overtaken. -/
theorem not_overtaken_of_reserved (reserved : isReserved name = true) :
    ¬ path.Overtaken name requests := by
  rintro ⟨free, _⟩
  cases free.symm.trans reserved

/-- Names that the platform does not have are not overtaken. -/
theorem not_overtaken_of_missing (missing : Platform.find? name = none) :
    ¬ path.Overtaken name requests := by
  rintro ⟨_, has, _⟩
  rw [missing] at has
  cases has

/-- What the platform has answered stays the answer until a place of the class path holds the name. -/
theorem sameAnswer_cons_of_platform {known : Definition} (tidy : d.Tidy name)
    (unknown : d.find? .classPath name = none) (has : d.find? .platform name = some known)
    (absent : isReserved name = true ∨ path.find? disk name = .ok none) :
    SameAnswer ((name, .ok known) :: path.answers requests d) name ↔
      ¬ path.Overtaken name ((disk, name) :: requests) := by
  cases free : isReserved name with
  | true =>
    refine iff_of_true ?_ (not_overtaken_of_reserved free)
    apply sameAnswer_of_forall_eq
    exact answer_of_platform unknown has (.inl free)
  | false =>
    rw [free] at absent
    have absent := absent.resolve_left nofun
    have listed := tidy.platform known has
    rw [overtaken_cons_of_absent free (by rw [listed]; rfl) absent]
    constructor
    · rintro same ⟨r, mem, finds⟩
      obtain ⟨a, answered, other⟩ := exists_answer_of_finds tidy free mem finds
      have both := same known a List.mem_cons_self (List.mem_cons_of_mem _ answered)
      rw [← both] at other
      exact other (Platform.origin_of_find? listed)
    · intro never
      apply sameAnswer_of_forall_eq
      exact answer_of_platform unknown has (.inr fun r mem finds => never ⟨r, mem, finds⟩)

/-- The definitions made so far may be any, as long as the class path has not defined the name. -/
theorem sameAnswer_iff (tidy : d.Tidy name) (unknown : d.find? .classPath name = none) :
    SameAnswer (path.answers requests d) name ↔ ¬ path.Overtaken name requests := by
  -- A request for another name changes nothing that matters, and of those for this name the first one that
  -- defines it decides: either the class path has it from then on, or the platform has.
  induction requests generalizing d with
  | nil =>
    refine iff_of_true nofun ?_
    rintro ⟨_, _, earlier, disk, later, split, _⟩
    exact List.append_ne_nil_of_right_ne_nil _ (List.cons_ne_nil _ _) split.symm
  | cons request requests ih =>
    obtain ⟨disk, other⟩ := request
    obtain ⟨answer, d', step, run⟩ := path.answers_cons disk other requests d
    rw [run]
    by_cases same : name = other
    · subst same
      have tidy' := step.tidy tidy
      cases step with
      | knows known => cases unknown.symm.trans known
      | @defines content _ _ found =>
        have known := d.find?_add_self .classPath name content
        have finds : path.Finds name (disk, name) := ⟨rfl, content, found⟩
        exact iff_of_true (sameAnswer_of_forall_eq (answer_of_known known))
          (not_overtaken_of_finds finds)
      | fails _ _ fault =>
        rw [sameAnswer_cons_of_ne (fun _ same => by cases same), ih tidy unknown,
          overtaken_cons_iff]
        · rintro ⟨_, content, found⟩
          cases found.symm.trans fault
        · intro _ absent
          cases absent.symm.trans fault
      | delegates _ absent platform =>
        cases platform with
        | knows known => exact sameAnswer_cons_of_platform tidy unknown known absent
        | @defines content _ has =>
          have known := d.find?_add_self .platform name content
          have unknown' : (d.add .platform name content).find? .classPath name = none := by
            rw [Definitions.find?_add_of_ne d (by decide), unknown]
          exact sameAnswer_cons_of_platform tidy' unknown' known absent
        | fails _ missing =>
          rw [sameAnswer_cons_of_ne (fun _ same => by cases same), ih tidy unknown]
          exact iff_of_true (not_overtaken_of_missing missing) (not_overtaken_of_missing missing)
    · rw [sameAnswer_cons_of_ne (fun a this => same (congrArg Prod.fst this).symm),
        ih (step.tidy tidy) ((step.find?_other same).trans unknown), overtaken_cons_iff]
      · rintro ⟨this, _⟩
        exact same this.symm
      · intro this
        exact absurd this.symm same

/-- **A name gets the same definition as long as a class path lives**, whatever happens to the files in its
directories between two requests, unless the platform stands in for a class that turns up later. Names
that are reserved for the platform, and those it has no class of, never change. -/
theorem answers_same_iff (path : ClassPath) (requests : List (Disk × String)) (name : String) :
    SameAnswer (path.answers requests {}) name ↔ ¬ path.Overtaken name requests :=
  sameAnswer_iff (Definitions.tidy_empty name) rfl

/-- A disk with an empty directory for classes. -/
def diskBefore : Disk := ⟨.dir [⟨"classes", .dir []⟩], []⟩

/-- The bytes of a class `sun.A`. -/
def lateClass : Bytes :=
  [0xCA, 0xFE, 0xBA, 0xBE, 0, 0, 0, 52, 0, 3, 7, 0, 2, 1, 0, 5, 115, 117, 110, 47, 65, 0, 0x21,
    0, 1, 0, 0, 0, 0, 0, 0, 0, 0, 0, 0]

/-- The same disk, when the class `sun.A` has been put in the directory. -/
def diskAfter : Disk :=
  ⟨.dir [⟨"classes", .dir [⟨"sun", .dir [⟨"A.class", .file lateClass false⟩]⟩]⟩], []⟩

theorem map_isSome_eq_ok {x : Except LoadError (Option LoadedClass)} {found : Bool} :
    x.map Option.isSome = .ok found ↔ ∃ content, x = .ok content ∧ content.isSome = found := by
  cases x <;> simp [Except.map]

/-- **A class path does not always give the same definition for a name**: `sun.A` is one of the platform
until the directory holds a class of this name, and that class from then on. -/
theorem answers_overtaken : ¬ SameAnswer
    (ClassPath.answers [.directory ⟨"/classes"⟩] [(diskBefore, "sun.A"), (diskAfter, "sun.A")] {})
    "sun.A" := by
  have before : (find? diskBefore "sun.A" [.directory ⟨"/classes"⟩]).map Option.isSome =
      .ok false := by decide +kernel
  have after : (find? diskAfter "sun.A" [.directory ⟨"/classes"⟩]).map Option.isSome =
      .ok true := by decide +kernel
  obtain ⟨content, absent, empty⟩ := map_isSome_eq_ok.mp before
  obtain ⟨content', found, full⟩ := map_isSome_eq_ok.mp after
  obtain ⟨content', rfl⟩ := Option.isSome_iff_exists.mp full
  rw [Option.isSome_eq_false_iff, Option.isNone_iff_eq_none] at empty
  subst empty
  rw [sameAnswer_iff (Definitions.tidy_empty _) rfl, not_not]
  exact ⟨by decide +kernel, by decide +kernel, [], diskBefore, _, rfl, nofun, absent, _,
    List.mem_cons_self, rfl, content', found⟩

end ClassPath

end ProcessorBench
