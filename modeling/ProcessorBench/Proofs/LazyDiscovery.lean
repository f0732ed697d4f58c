import ProcessorBench.Proofs.CallLog
import ProcessorBench.Proofs.Files
import ProcessorBench.Proofs.StatelessLoading

/-!
# Searching for tests step by step

A search looks at the source files in the order of their places, and at no more of them than it has to
(`Discovery.pulls_course`). What it finds in a file is what there is to be found by looking at that file alone: what
has been loaded for the files before it makes no difference.
-/

namespace ProcessorBench

namespace Discovery

/-! ## Items -/

section
variable (verdict : Location → Except DiscoveryError (Option TestCase))

/-- What a search gives, if it is known what there is in each file: the cases, up to the first fault. -/
def itemsOf : List Location → List (Except DiscoveryError TestCase)
  | [] => []
  | file :: files =>
    match verdict file with
    | .error e => [.error e]
    | .ok (some case) => .ok case :: itemsOf files
    | .ok none => itemsOf files

/-- The files that are looked at for the next item, and those that are left then. -/
def ahead : List Location → List Location × List Location
  | [] => ([], [])
  | file :: files =>
    match verdict file with
    | .error _ => ([file], [])
    | .ok (some _) => ([file], files)
    | .ok none => (file :: (ahead files).1, (ahead files).2)

/-- The files that are looked at for a number of items. -/
def examined : (count : Nat) → List Location → List Location
  | 0, _ => []
  | count + 1, files => (ahead verdict files).1 ++ examined count (ahead verdict files).2

variable {verdict} {file : Location} {files : List Location} {n : Nat}

/-- A fault is the last item. -/
theorem itemsOf_cons_error {e : DiscoveryError} (fault : verdict file = .error e) :
    itemsOf verdict (file :: files) = [.error e] := by rw [itemsOf, fault]

/-- A case is followed by the items of the other files. -/
theorem itemsOf_cons_some {case : TestCase} (found : verdict file = .ok (some case)) :
    itemsOf verdict (file :: files) = .ok case :: itemsOf verdict files := by rw [itemsOf, found]

/-- A file without a case gives no item. -/
theorem itemsOf_cons_none (nothing : verdict file = .ok none) :
    itemsOf verdict (file :: files) = itemsOf verdict files := by rw [itemsOf, nothing]

/-- A fault ends the search with the file that is at fault. -/
theorem ahead_cons_error {e : DiscoveryError} (fault : verdict file = .error e) :
    ahead verdict (file :: files) = ([file], []) := by rw [ahead, fault]

/-- A case is handed out before any other file is looked at. -/
theorem ahead_cons_some {case : TestCase} (found : verdict file = .ok (some case)) :
    ahead verdict (file :: files) = ([file], files) := by rw [ahead, found]

/-- After a file without a case the next one is looked at. -/
theorem ahead_cons_none (nothing : verdict file = .ok none) : ahead verdict (file :: files) =
    (file :: (ahead verdict files).1, (ahead verdict files).2) := by rw [ahead, nothing]

/-- Without files nothing is looked at. -/
theorem examined_nil (n : Nat) : examined verdict n [] = [] := by
  induction n with
  | zero => rfl
  | succ n ih => exact ih

/-- Behind a file that is at fault none is looked at. -/
theorem examined_cons_error {e : DiscoveryError} (fault : verdict file = .error e) :
    examined verdict (n + 1) (file :: files) = [file] := by
  rw [examined, ahead_cons_error fault, examined_nil, List.append_nil]

/-- A case uses up one of the items that are asked for. -/
theorem examined_cons_some {case : TestCase} (found : verdict file = .ok (some case)) :
    examined verdict (n + 1) (file :: files) = file :: examined verdict n files := by
  rw [examined, ahead_cons_some found, List.singleton_append]

/-- A file without a case uses up none of them. -/
theorem examined_cons_none (nothing : verdict file = .ok none) :
    examined verdict (n + 1) (file :: files) = file :: examined verdict (n + 1) files := by
  rw [examined, ahead_cons_none nothing, List.cons_append, examined]

/-- The first item, and those that come after the files looked at for it. -/
theorem itemsOf_ahead (files : List Location) : itemsOf verdict files =
    (itemsOf verdict files).head?.toList ++ itemsOf verdict (ahead verdict files).2 := by
  induction files with
  | nil => rfl
  | cons file files ih =>
    cases given : verdict file with
    | error e =>
      rw [itemsOf_cons_error given, ahead_cons_error given]
      rfl
    | ok found =>
      cases found with
      | none =>
        rw [itemsOf_cons_none given, ahead_cons_none given]
        exact ih
      | some case =>
        rw [itemsOf_cons_some given, ahead_cons_some given]
        rfl

/-- The next item comes from the files that are left. -/
theorem getElem?_itemsOf_succ (files : List Location) (n : Nat) :
    (itemsOf verdict files)[n + 1]? = (itemsOf verdict (ahead verdict files).2)[n]? := by
  have split := @itemsOf_ahead verdict files
  cases items : itemsOf verdict files with
  | nil =>
    rw [items] at split
    rw [(List.append_eq_nil_iff.mp split.symm).2]
    rfl
  | cons item rest =>
    rw [items] at split
    rw [List.getElem?_cons_succ, (List.cons.inj split).2]
    rfl

/-- The last file looked at for an item is the one that gives it. -/
theorem exists_file_of_getElem? {item : Except DiscoveryError TestCase}
    (has : (itemsOf verdict files)[n]? = some item) :
    ∃ before file after, files = before ++ file :: after ∧
      examined verdict (n + 1) files = before ++ [file] ∧ (itemsOf verdict before).length = n ∧
      verdict file = item.map some := by
  -- A file without a test does not count, and behind one with a test there is one item less to look for.
  induction files generalizing n with
  | nil => cases has
  | cons file files ih =>
    cases given : verdict file with
    | error e =>
      rw [itemsOf_cons_error given] at has
      cases n with
      | zero =>
        cases has
        exact ⟨[], file, files, rfl, examined_cons_error given, rfl, given⟩
      | succ n => cases has
    | ok found =>
      cases found with
      | none =>
        rw [itemsOf_cons_none given] at has
        obtain ⟨before, last, after, rfl, looked, count, gives⟩ := ih has
        refine ⟨file :: before, last, after, rfl, ?_, ?_, gives⟩
        · rw [examined_cons_none given, looked, List.cons_append]
        · rw [itemsOf_cons_none given, count]
      | some case =>
        rw [itemsOf_cons_some given] at has
        cases n with
        | zero =>
          cases has
          exact ⟨[], file, files, rfl, examined_cons_some given, rfl, given⟩
        | succ n =>
          obtain ⟨before, last, after, rfl, looked, count, gives⟩ := ih has
          refine ⟨file :: before, last, after, rfl, ?_, ?_, gives⟩
          · rw [examined_cons_some given, looked, List.cons_append]
          · rw [itemsOf_cons_some given, List.length_cons, count]

/-- For more items than there are, all files are looked at, if there is no fault. -/
theorem examined_eq_self (more : (itemsOf verdict files).length < n)
    (sound : ∀ e, .error e ∉ itemsOf verdict files) : examined verdict n files = files := by
  induction files generalizing n with
  | nil => exact examined_nil n
  | cons file files ih =>
    obtain _ | n := n
    · exact absurd more (Nat.not_lt_zero _)
    cases given : verdict file with
    | error e =>
      rw [itemsOf_cons_error given] at sound
      exact absurd List.mem_cons_self (sound e)
    | ok found =>
      cases found with
      | none =>
        rw [itemsOf_cons_none given] at more sound
        rw [examined_cons_none given, ih more sound]
      | some case =>
        rw [itemsOf_cons_some given] at more sound
        rw [examined_cons_some given, ih (Nat.lt_of_succ_lt_succ more) fun e mem =>
          sound e (List.mem_cons_of_mem _ mem)]

/-- When a fault has been given, or when there has been no item, no file is looked at any more. -/
theorem examined_succ (ended : (itemsOf verdict files).length < n ∨
      (itemsOf verdict files).length = n ∧ ∃ e, .error e ∈ itemsOf verdict files) :
    examined verdict (n + 1) files = examined verdict n files := by
  induction files generalizing n with
  | nil => rw [examined_nil, examined_nil]
  | cons file files ih =>
    obtain _ | n := n
    · rcases ended with more | ⟨none, e, mem⟩
      · exact absurd more (Nat.not_lt_zero _)
      · rw [List.length_eq_zero_iff.mp none] at mem
        cases mem
    cases given : verdict file with
    | error e => rw [examined_cons_error given, examined_cons_error given]
    | ok found =>
      cases found with
      | none =>
        rw [itemsOf_cons_none given] at ended
        rw [examined_cons_none given, examined_cons_none given, ih ended]
      | some case =>
        rw [itemsOf_cons_some given, List.length_cons] at ended
        rw [examined_cons_some given, examined_cons_some given, ih]
        rcases ended with more | ⟨all, e, mem⟩
        · exact .inl (Nat.lt_of_succ_lt_succ more)
        · exact .inr ⟨Nat.succ.inj all, e, by simpa using mem⟩

end

/-! ## One file -/

end Discovery

/-- Definitions that are sound for each loader with the class path as its parent. -/
def ClassPath.Sound (path : ClassPath) (disk : Disk) (definitions : Definitions) : Prop :=
  ∀ table, (⟨table, .classPath path⟩ : ClassLoader).Sound disk definitions

/-- The processor of a case has its classes at places along names. -/
def TestCase.IsPlain (c : TestCase) : Prop :=
  ∀ processor stub expected, c.plan = .compare processor stub expected → processor.artifacts.IsPlain

namespace Discovery

variable {b : Workbench} {answer : RequestContent → CompilerAnswer} {h : Host}

/-- A search with the given root and class path, which knows only what is on the disk. -/
structure Honest (scanRoot : Path) (path : ClassPath) (disk : Disk) (d : Discovery) : Prop where
  scanRoot : d.scanRoot = scanRoot
  classPath : d.classPath = path
  sound : path.Sound disk d.definitions

/-- What a result says about a file, where the definitions after it are sound. -/
def Tells (path : ClassPath) (disk : Disk) (verdict : Except DiscoveryError (Option TestCase)) :
    Except DiscoveryError (Option TestCase × Definitions) → Prop
  | .ok (case, definitions) => verdict = .ok case ∧ path.Sound disk definitions
  | .error e => verdict = .error e

/-- Plans for plain artifacts are plain. -/
theorem planOf_isPlain {unit : String} {artifacts : ArtifactSet} (plain : artifacts.IsPlain)
    (declaration : Declaration) (expected : Option String) :
    (⟨unit, planOf unit artifacts declaration expected⟩ : TestCase).IsPlain := by
  intro processor stub text plan
  cases expected with
  | none => cases plan
  | some text =>
    cases plan
    exact plain

/-- What the artifacts of a unit declare does not depend on what has been loaded before. -/
theorem judge_tells (path : ClassPath) (scanRoot : Path) (disk : Disk) (unit : String)
    (artifacts : ArtifactSet) :
    ∃ verdict, (artifacts.IsPlain → ∀ case, verdict = .ok (some case) → case.IsPlain) ∧
      ∀ d, Honest scanRoot path disk d → Tells path disk verdict (d.judge disk unit artifacts) := by
  let loader : ClassLoader := ⟨artifacts.classes, .classPath path⟩
  -- What a search knows already makes no difference to the inspection, so the verdict can be told beforehand.
  obtain ⟨r, gives⟩ := inspect_stateless disk loader unit
  have kept {definitions : Definitions} (sound : loader.Sound disk definitions) :
      path.Sound disk definitions.withoutIsolated := fun _ => sound.withoutIsolated rfl
  refine ⟨r.bind fun
    | none => .ok none
    | some declaration => (expectedText disk scanRoot declaration.expected).map fun expected =>
      some ⟨unit, planOf unit artifacts declaration expected⟩, fun plain case given => ?_, ?_⟩
  · rcases r with e | _ | declaration
    · cases given
    · cases given
    · replace given : (expectedText disk scanRoot declaration.expected).map _ = _ := given
      generalize expectedText disk scanRoot declaration.expected = text at given
      cases text with
      | error e => cases given
      | ok expected =>
        cases given
        exact planOf_isPlain plain declaration expected
  rintro ⟨_, _, definitions, pending⟩ ⟨rfl, rfl, sound⟩
  have here := gives definitions (sound _)
  unfold judge
  simp only
  cases inspected : inspect disk loader unit definitions with
  | error e later =>
    rw [inspected] at here
    rw [here.1]
    rfl
  | ok declared later =>
    rw [inspected] at here
    obtain ⟨rfl, sound'⟩ := here
    cases declared with
    | none => exact ⟨rfl, kept sound'⟩
    | some declaration =>
      show Tells _ _ ((expectedText disk _ declaration.expected).map _)
        ((expectedText disk _ declaration.expected) >>= _)
      cases expectedText disk _ declaration.expected with
      | error e => rfl
      | ok expected => exact ⟨rfl, kept sound'⟩

/-- What comes of a step that looks at a file, on a host with any requests made before: what it says about the file,
the requests that it makes, and nothing else. -/
def Shows (path : ClassPath) (h : Host) (verdict : Except DiscoveryError (Option TestCase))
    (log : List CompilerCall) (look : HostStep DiscoveryError (Option TestCase × Definitions)) : Prop :=
  ∀ calls, ∃ r, look.outcome { h with calls := calls } = (r, { h with calls := log ++ calls }) ∧
    Tells path h.disk verdict r

/-- A fault shows itself, and nothing is asked of the compiler. -/
theorem shows_throw (path : ClassPath) (h : Host) (e : DiscoveryError) :
    Shows path h (.error e) [] (throw e) := fun _ => ⟨.error e, rfl, rfl⟩

/-- A file without a case shows itself, and nothing is asked of the compiler. -/
theorem shows_nothing {path : ClassPath} {definitions : Definitions}
    (sound : path.Sound h.disk definitions) : Shows path h (.ok none) [] (return (none, definitions)) :=
  fun _ => ⟨.ok (none, definitions), rfl, rfl, sound⟩

/-- Looking at a file whose unit and whose source are known. -/
theorem examineUnit_shows (content : b.compiler = ContentCompiler.ofAnswers answer)
    (wf : h.disk.tree.WellFormed) (path : ClassPath) (scanRoot : Path) (unit source : String) :
    ∃ verdict, ∃ log : List CompilerCall, (log.length ≤ 1 ∧ ∀ c ∈ log, c.request.processor = none) ∧
      (∀ case, verdict = .ok (some case) → case.IsPlain) ∧
      ∀ d, Honest scanRoot path h.disk d → Shows path h verdict log (d.examineUnit b unit source) := by
  obtain ⟨r, log, few, kind, plain, compiles⟩ := Workbench.compile_leaves content unit source none
    nofun wf
  have kind : ∀ c ∈ log, c.request.processor = none := fun c mem => Option.map_eq_none_iff.mp (kind c mem)
  have compiled (calls : List CompilerCall) :
      (HostStep.adapt DiscoveryError.compile (b.compile unit (some source) none)).outcome
        { h with calls := calls } = (r.mapError .compile, { h with calls := log ++ calls }) := by
    rw [HostStep.outcome_adapt, compiles]
  cases r with
  | error e =>
    refine ⟨.error (.compile e), log, ⟨few, kind⟩, nofun, fun d _ calls => ⟨.error (.compile e), ?_, rfl⟩⟩
    rw [examineUnit, HostStep.outcome_bind, compiled]
    rfl
  | ok made =>
    cases made with
    | none =>
      refine ⟨.error (.compiler unit), log, ⟨few, kind⟩, nofun, fun d _ calls =>
        ⟨.error (.compiler unit), ?_, rfl⟩⟩
      rw [examineUnit, HostStep.outcome_bind, compiled]
      rfl
    | some artifacts =>
      obtain ⟨verdict, kept, tells⟩ := judge_tells path scanRoot h.disk unit artifacts
      refine ⟨verdict, log, ⟨few, kind⟩, kept (plain artifacts rfl), fun d honest calls =>
        ⟨d.judge h.disk unit artifacts, ?_, tells d honest⟩⟩
      rw [examineUnit, HostStep.outcome_bind, compiled]
      exact HostStep.outcome_ofExcept _ _

/-- A file with the name of a unit is read and looked at as one. -/
theorem examine_outcome {unit : String} {file : Location} (named : UnitName.ofNames? file "java" = some unit)
    (d : Discovery) (b : Workbench) (h : Host) :
    (d.examine b file).outcome h =
      (match h.disk.readText? (d.scanRoot.joinAll file) with
        | none => throw (.io (d.scanRoot.joinAll file))
        | some source => d.examineUnit b unit source :
          HostStep DiscoveryError (Option TestCase × Definitions)).outcome h := by
  rw [examine, named]
  exact HostStep.outcome_bind _ _ _

/-- There is nothing to be found where there is no file any more. -/
theorem examineAt_outcome (d : Discovery) (b : Workbench) (h : Host) :
    (d.examineAt b file).outcome h =
      (if h.disk.isFile (d.scanRoot.joinAll file) then d.examine b file
        else return (none, d.definitions)).outcome h :=
  HostStep.outcome_bind _ _ _

/-- **Looking at a file** gives what is in it, whatever has been loaded before, and leaves nothing but a request
at most, without a processor. -/
theorem examineAt_shows (content : b.compiler = ContentCompiler.ofAnswers answer)
    (wf : h.disk.tree.WellFormed) (path : ClassPath) (scanRoot : Path) (file : Location) :
    ∃ verdict, ∃ log : List CompilerCall, (log.length ≤ 1 ∧ ∀ c ∈ log, c.request.processor = none) ∧
      (∀ case, verdict = .ok (some case) → case.IsPlain) ∧
      ∀ d, Honest scanRoot path h.disk d → Shows path h verdict log (d.examineAt b file) := by
  have quiet : ([] : List CompilerCall).length ≤ 1 ∧
      ∀ c ∈ ([] : List CompilerCall), c.request.processor = none := ⟨Nat.zero_le 1, nofun⟩
  cases isFile : h.disk.isFile (scanRoot.joinAll file) with
  | false =>
    refine ⟨.ok none, [], quiet, nofun, ?_⟩
    rintro d ⟨rfl, _, sound⟩ calls
    rw [examineAt_outcome, isFile]
    exact shows_nothing sound calls
  | true =>
    cases named : UnitName.ofNames? file "java" with
    | none =>
      refine ⟨.error (.compile (.invalidUnitName (Path.ofNames file).text)), [], quiet, nofun, ?_⟩
      rintro d ⟨rfl, _, _⟩ calls
      rw [examineAt_outcome, isFile, if_pos rfl, examine, named]
      exact shows_throw _ _ _ calls
    | some unit =>
      cases text : h.disk.readText? (scanRoot.joinAll file) with
      | none =>
        refine ⟨.error (.io (scanRoot.joinAll file)), [], quiet, nofun, ?_⟩
        rintro d ⟨rfl, _, _⟩ calls
        rw [examineAt_outcome, isFile, if_pos rfl, examine_outcome named, text]
        exact shows_throw _ _ _ calls
      | some source =>
        obtain ⟨verdict, log, once, plain, examined⟩ :=
          examineUnit_shows content wf path scanRoot unit source
        refine ⟨verdict, log, once, plain, ?_⟩
        intro d honest calls
        rw [examineAt_outcome, honest.scanRoot, isFile, if_pos rfl, examine_outcome named, honest.scanRoot, text]
        exact examined d honest calls

/-! ## A whole search -/

/-- Look at a source file alone, with a class path of which nothing has been loaded yet. -/
def alone (b : Workbench) (scanRoot : Path) (file : Location) :
    HostStep DiscoveryError (Option TestCase) := do
  let d ← start b scanRoot
  return (← d.examineAt b file).1

/-- Go on to the next item, a number of times. -/
def pulls (b : Workbench) {ε : Type} :
    (count : Nat) → Discovery → HostStep ε (List (Option (Except DiscoveryError TestCase)) × Discovery)
  | 0, d => return ([], d)
  | count + 1, d => do
    let (item, d) ← d.next b
    let (items, d) ← pulls b count d
    return (item :: items, d)

/-- What there is to be seen in each file, from a search that can know the classes of a class path: what it is, and
the requests that are made. -/
structure Survey (b : Workbench) (h : Host) (scanRoot : Path) (path : ClassPath)
    (verdict : Location → Except DiscoveryError (Option TestCase))
    (log : Location → List CompilerCall) : Prop where
  once (file : Location) : (log file).length ≤ 1 ∧ ∀ c ∈ log file, c.request.processor = none
  plain (file : Location) (case : TestCase) : verdict file = .ok (some case) → case.IsPlain
  shows (file : Location) (d : Discovery) : Honest scanRoot path h.disk d →
    Shows path h (verdict file) (log file) (d.examineAt b file)

/-- **Every host has its verdict for every file**, whatever files have been looked at before. -/
theorem exists_survey (content : b.compiler = ContentCompiler.ofAnswers answer)
    (wf : h.disk.tree.WellFormed) (path : ClassPath) (scanRoot : Path) :
    ∃ verdict log, Survey b h scanRoot path verdict log := by
  choose verdict log once plain shows using examineAt_shows content wf path scanRoot
  exact ⟨verdict, log, once, plain, shows⟩

section
variable {scanRoot : Path} {path : ClassPath} {verdict : Location → Except DiscoveryError (Option TestCase)}
  {log : Location → List CompilerCall}

/-- The next item is the first of those that there are, and the files up to the one that gives it are looked at. -/
theorem Survey.nextOf (survey : Survey b h scanRoot path verdict log) {ε : Type} (files : List Location)
    {d : Discovery} (honest : Honest scanRoot path h.disk d) (calls : List CompilerCall) :
    ∃ later : Discovery, Honest scanRoot path h.disk later ∧ later.pending = (ahead verdict files).2 ∧
      (nextOf (ε := ε) b d files).outcome { h with calls := calls } =
        (.ok ((itemsOf verdict files).head?, later),
          { h with calls := (ahead verdict files).1.reverse.flatMap log ++ calls }) := by
  -- A file in which there is no test is passed over, and the search goes on with more definitions and requests.
  induction files generalizing d calls with
  | nil => exact ⟨{ d with pending := [] }, ⟨honest.scanRoot, honest.classPath, honest.sound⟩, rfl, rfl⟩
  | cons file files ih =>
    obtain ⟨r, outcome, tells⟩ := survey.shows file d honest calls
    unfold Discovery.nextOf
    rw [HostStep.outcome_attempt_bind, outcome]
    cases r with
    | error e =>
      have given : verdict file = .error e := tells
      rw [itemsOf_cons_error given, ahead_cons_error given, List.reverse_singleton,
        List.flatMap_singleton]
      exact ⟨{ d with pending := [] }, ⟨honest.scanRoot, honest.classPath, honest.sound⟩, rfl, rfl⟩
    | ok found =>
      obtain ⟨case, definitions⟩ := found
      obtain ⟨given, sound⟩ := tells
      cases case with
      | none =>
        rw [itemsOf_cons_none given, ahead_cons_none given, List.reverse_cons, List.flatMap_append,
          List.flatMap_singleton, List.append_assoc]
        exact ih (d := { d with definitions }) ⟨honest.scanRoot, honest.classPath, sound⟩
          (log file ++ calls)
      | some case =>
        rw [itemsOf_cons_some given, ahead_cons_some given, List.reverse_singleton,
          List.flatMap_singleton]
        exact ⟨{ d with definitions, pending := files },
          ⟨honest.scanRoot, honest.classPath, sound⟩, rfl, rfl⟩

/-- Asking for some items goes through the files that they are found in, and calls the compiler for these. -/
theorem Survey.pulls (survey : Survey b h scanRoot path verdict log) {ε : Type} (count : Nat)
    {d : Discovery} (honest : Honest scanRoot path h.disk d) (calls : List CompilerCall) :
    ∃ later : Discovery, (pulls (ε := ε) b count d).outcome { h with calls := calls } =
      (.ok ((List.range count).map fun n => (itemsOf verdict d.pending)[n]?, later),
        { h with calls := (examined verdict count d.pending).reverse.flatMap log ++ calls }) := by
  induction count generalizing d calls with
  | zero => exact ⟨d, rfl⟩
  | succ count ih =>
    obtain ⟨next, honest', pending, outcome⟩ := survey.nextOf (ε := ε) d.pending honest calls
    obtain ⟨later, outcome'⟩ := ih honest' ((ahead verdict d.pending).1.reverse.flatMap log ++ calls)
    refine ⟨later, ?_⟩
    unfold Discovery.pulls Discovery.next
    rw [HostStep.outcome_bind, outcome]
    simp only
    rw [HostStep.outcome_bind, outcome', pending]
    have items : (itemsOf verdict d.pending).head? ::
          (List.range count).map (fun n => (itemsOf verdict (ahead verdict d.pending).2)[n]?) =
        (List.range (count + 1)).map fun n => (itemsOf verdict d.pending)[n]? := by
      rw [List.range_succ_eq_map, List.map_cons, List.map_map, List.head?_eq_getElem?]
      exact congrArg _ (List.map_congr_left fun n _ => (getElem?_itemsOf_succ d.pending n).symm)
    have looked : (examined verdict count (ahead verdict d.pending).2).reverse.flatMap log ++
          ((ahead verdict d.pending).1.reverse.flatMap log ++ calls) =
        (examined verdict (count + 1) d.pending).reverse.flatMap log ++ calls := by
      rw [examined, List.reverse_append, List.flatMap_append, List.append_assoc]
    rw [← items, ← looked]
    rfl

end

/-- Starting a search changes nothing on the host. -/
theorem start_outcome (b : Workbench) (scanRoot : Path) (h : Host) :
    (start b scanRoot).outcome h = (startOn b scanRoot h.disk, h) := HostStep.outcome_ofExcept _ h

/-- What there is at the start of a search. -/
theorem startOn_eq_ok {scanRoot : Path} {disk : Disk} {d : Discovery}
    (started : startOn b scanRoot disk = .ok d) :
    d.scanRoot = scanRoot ∧ d.definitions = {} ∧ ∃ entries, disk.lookup scanRoot = .ok (.dir entries) ∧
      d.pending = ((FileTree.dir entries).files.map (·.1)).filter isSource := by
  unfold startOn at started
  split at started
  next entries found =>
    obtain ⟨path, _, same⟩ := bind_eq_ok.mp started
    cases same
    exact ⟨rfl, rfl, entries, found, rfl⟩
  next => cases started

/-- How a search goes, on a host that stays as it is. Each file has a verdict, which is what comes of looking at it
alone, and some requests, which are those that this makes. -/
structure Course (b : Workbench) (scanRoot : Path) (h : Host) (d : Discovery)
    (verdict : Location → Except DiscoveryError (Option TestCase))
    (log : Location → List CompilerCall) : Prop where
  /-- The files are those of the tree whose names say that they are sources. -/
  sources : ∃ tree, h.disk.lookup scanRoot = .ok tree ∧ ∀ file, file ∈ d.pending ↔
    isSource file = true ∧ ∃ content executable, tree.at? file = some (.file content executable)
  /-- They stand in the order of their places, each directory in the place of its name. -/
  ascending : d.pending.Pairwise (· < ·)
  alone (file : Location) : (alone b scanRoot file).outcome { h with calls := [] } =
    (verdict file, { h with calls := log file })
  /-- Each file is compiled at most once, and with no processor. -/
  once (file : Location) : (log file).length ≤ 1 ∧ ∀ c ∈ log file, c.request.processor = none
  /-- The items are what the verdicts say, and then there are none. The host is left as it is, but for the requests
  made for the files that have been looked at. -/
  pulled {ε : Type} (count : Nat) : ∃ later, (pulls (ε := ε) b count d).outcome h =
    (.ok ((List.range count).map fun n => (itemsOf verdict d.pending)[n]?, later),
      { h with calls := (examined verdict count d.pending).reverse.flatMap log ++ h.calls })
  /-- For an item the files are looked at up to the one that gives it. -/
  upTo (n : Nat) (item : Except DiscoveryError TestCase) : (itemsOf verdict d.pending)[n]? = some item →
    ∃ before file after, d.pending = before ++ file :: after ∧
      examined verdict (n + 1) d.pending = before ++ [file] ∧ (itemsOf verdict before).length = n ∧
      verdict file = item.map some
  /-- When there is no item any more and there has been no fault, all files have been looked at. -/
  all (count : Nat) : (itemsOf verdict d.pending).length < count →
    (∀ e, .error e ∉ itemsOf verdict d.pending) → examined verdict count d.pending = d.pending
  /-- After a fault, and when there is no item any more, no file is looked at. -/
  ended (count : Nat) : ((itemsOf verdict d.pending).length < count ∨
      (itemsOf verdict d.pending).length = count ∧ ∃ e, .error e ∈ itemsOf verdict d.pending) →
    examined verdict (count + 1) d.pending = examined verdict count d.pending

/-- A search that has just started can know the classes of its class path. -/
theorem honest_start {scanRoot : Path} {disk : Disk} {d : Discovery} (started : startOn b scanRoot disk = .ok d) :
    Honest scanRoot d.classPath disk d := by
  obtain ⟨root, fresh, _⟩ := startOn_eq_ok started
  refine ⟨root, rfl, fun table => ?_⟩
  rw [fresh]
  exact ClassLoader.sound_empty _ _

/-- A search that can start takes the course of its verdicts. -/
theorem Survey.course {scanRoot : Path} {d : Discovery} (wf : h.disk.tree.WellFormed)
    (started : startOn b scanRoot h.disk = .ok d)
    {verdict : Location → Except DiscoveryError (Option TestCase)} {log : Location → List CompilerCall}
    (survey : Survey b h scanRoot d.classPath verdict log) : Course b scanRoot h d verdict log := by
  have honest := honest_start started
  obtain ⟨_, _, entries, found, pending⟩ := startOn_eq_ok started
  have wf' := Disk.wellFormed_lookup wf found
  refine ⟨⟨.dir entries, found, fun file => ?_⟩, ?_, fun file => ?_, survey.once,
    fun count => survey.pulls count honest h.calls, fun _ _ => exists_file_of_getElem?,
    fun _ => examined_eq_self, fun _ => examined_succ⟩
  · rw [pending, List.mem_filter, and_comm, List.mem_map]
    refine and_congr_right fun _ => ⟨?_, ?_⟩
    · rintro ⟨⟨_, content⟩, mem, rfl⟩
      exact ⟨content, (FileTree.mem_files_iff wf').mp mem⟩
    · rintro ⟨content, has⟩
      exact ⟨(file, content), (FileTree.mem_files_iff wf').mpr has, rfl⟩
  · rw [pending]
    exact (FileTree.files_ascending wf').filter _
  · obtain ⟨r, outcome, tells⟩ := survey.shows file d honest []
    unfold Discovery.alone
    rw [HostStep.outcome_bind, start_outcome]
    simp only
    rw [started]
    simp only
    rw [HostStep.outcome_bind, outcome, List.append_nil]
    cases r with
    | error e =>
      have given : verdict file = .error e := tells
      rw [given]
    | ok seen =>
      rw [tells.1]
      rfl

/-- **A search is lazy.** By a compiler that goes by content, it gives item for item what the verdicts say on its
files, each looked at alone, and it looks at no more files than it has to. -/
theorem search_course (content : b.compiler = ContentCompiler.ofAnswers answer)
    (wf : h.disk.tree.WellFormed) {scanRoot : Path} {d : Discovery}
    (started : (start b scanRoot).outcome h = (.ok d, h)) :
    ∃ verdict log, Course b scanRoot h d verdict log := by
  obtain ⟨verdict, log, survey⟩ := exists_survey content wf d.classPath scanRoot
  rw [start_outcome] at started
  exact ⟨verdict, log, survey.course wf (congrArg Prod.fst started)⟩

/-! ## A small tree of sources -/

/-- A text among the constants of a class file. -/
def textConstant (text : String) : Bytes :=
  1 :: Bytes.ofNat 2 (Utf8.encode text).length ++ Utf8.encode text

/-- The class file of a processor that declares a test for types. From the twelfth place on there are further constants
in it, which its interfaces and further elements of the declaration may use. -/
def processorClass (name super : String) (constants : List Bytes) (interfaces : List Nat)
    (elements : List Bytes) : Bytes :=
  [0xca, 0xfe, 0xba, 0xbe, 0, 0, 0, 52] ++ Bytes.ofNat 2 (12 + constants.length) ++ textConstant name ++ [7, 0, 1] ++
    textConstant super ++ [7, 0, 3] ++
    [Declaration.descriptor, "annotation", "Ljava/lang/Deprecated;", "target", Declaration.elementTypeDescriptor,
      "TYPE", ClassFile.visibleAnnotationsName].flatMap textConstant ++ constants.flatten ++
    [0, 0x21, 0, 2, 0, 4] ++ Bytes.ofNat 2 interfaces.length ++ interfaces.flatMap (Bytes.ofNat 2) ++
    [0, 0, 0, 0, 0, 1, 0, 11] ++ Bytes.ofNat 4 (18 + elements.flatten.length) ++ [0, 1, 0, 5] ++
    Bytes.ofNat 2 (2 + elements.length) ++ [0, 6, 0x63, 0, 7, 0, 8, 0x65, 0, 9, 0, 10] ++ elements.flatten

/-- The class file of a class without members. -/
def plainClass (name super : String) : Bytes :=
  [0xca, 0xfe, 0xba, 0xbe, 0, 0, 0, 52, 0, 5] ++ textConstant name ++ [7, 0, 1] ++ textConstant super ++ [7, 0, 3] ++
    [0, 0x21, 0, 2, 0, 4, 0, 0, 0, 0, 0, 0, 0, 0]

/-- A processor with one line that it expects, whose superclass is on a class path. -/
def expectingClass (name line : String) : Bytes :=
  processorClass name "Base" [textConstant "expected", textConstant line,
    textConstant "javax/annotation/processing/Processor", [7, 0, 14]] [15] [[0, 12, 0x5b, 0, 1, 0x73, 0, 13]]

/-- A processor for which nothing is expected. -/
def declaringClass (name : String) : Bytes :=
  processorClass name "javax/annotation/processing/AbstractProcessor" [] [] []

/-- The answer of a compiler that makes nothing and does not accept the source. -/
def refusal : CompilerAnswer where
  classes := []
  generated := []
  result := .ok false
  classes_wellFormed := FileTree.wellFormed_empty
  generated_wellFormed := FileTree.wellFormed_empty

/-- The answer of a compiler that makes one class. -/
def oneClass (file : String) (content : Bytes) (wf : (FileTree.dir [⟨file, .file content false⟩]).WellFormed) :
    CompilerAnswer where
  classes := [⟨file, .file content false⟩]
  generated := []
  result := .ok true
  classes_wellFormed := wf
  generated_wellFormed := FileTree.wellFormed_empty

/-- A compiler for sources that tell no more than their names. `A` is no processor, `B` and `C` are processors with
something that is expected, `D` is one without, and all others are refused. -/
def answerByName (seen : RequestContent) : CompilerAnswer :=
  if seen.source = some (Utf8.encode "A") then oneClass "A.class" (plainClass "A" "Base") rfl
  else if seen.source = some (Utf8.encode "B") then oneClass "B.class" (expectingClass "B" "same") rfl
  else if seen.source = some (Utf8.encode "C") then oneClass "C.class" (expectingClass "C" "other") rfl
  else if seen.source = some (Utf8.encode "D") then oneClass "D.class" (declaringClass "D") rfl
  else refusal

/-- A bench with a compiler and a class path. -/
def namesBench (answer : RequestContent → CompilerAnswer) : Workbench where
  sourceRoot := ⟨"/src"⟩
  classPath := [⟨"/lib"⟩]
  compiler := ContentCompiler.ofAnswers answer

/-- A host with some of these sources, another file, and the superclass of some classes on the class path. -/
def namesHost (names : List String) : Host where
  disk := ⟨.dir [
    ⟨"lib", .dir [⟨"Base.class", .file (plainClass "Base" "java/lang/Object") false⟩]⟩,
    ⟨"src", .dir (names.map (fun name => ⟨name ++ ".java", .file (Utf8.encode name) false⟩) ++
      [⟨"notes", .file [] false⟩])⟩, ⟨"tmp", .dir []⟩], []⟩
  environment := []

/-- The case of a processor with something that is expected. -/
def expectingCase (name line : String) : TestCase where
  name := name
  plan := .compare ⟨name, ⟨[(name, ⟨[name ++ ".class"], expectingClass name line⟩)]⟩⟩
    (Target.type.stub "java.lang.Deprecated") line

/-- The verdict for a file is what comes of it alone. -/
theorem Course.verdict_eq {scanRoot : Path} {d : Discovery} {file : Location}
    {verdict : Location → Except DiscoveryError (Option TestCase)} {log : Location → List CompilerCall}
    (course : Course b scanRoot h d verdict log) {r : Except DiscoveryError (Option TestCase)}
    (given : ((Discovery.alone b scanRoot file).outcome { h with calls := [] }).1 = r) : verdict file = r :=
  (congrArg Prod.fst (course.alone file)).symm.trans given

/-- Of three files, the first one gives no case, the second one does, and the last one is at fault. The superclass of
the first two is known already when the second one is looked at. -/
theorem search_course_threeFiles :
    let host := namesHost ["A", "B", "E"]
    ∃ d verdict log, host.disk.tree.WellFormed ∧
      (start (namesBench answerByName) ⟨"/src"⟩).outcome host = (.ok d, host) ∧
      Course (namesBench answerByName) ⟨"/src"⟩ host d verdict log ∧
      d.pending = [["A.java"], ["B.java"], ["E.java"]] ∧
      verdict ["A.java"] = .ok none ∧
      itemsOf verdict d.pending = [.ok (expectingCase "B" "same"), .error (.compiler "E")] ∧
      examined verdict 1 d.pending = [["A.java"], ["B.java"]] ∧ examined verdict 5 d.pending = d.pending ∧
      ∃ warm left, (d.examineAt (namesBench answerByName) ["A.java"]).outcome host = (.ok (none, warm), left) ∧
        (warm.find? .classPath "Base").isSome = true := by
  intro host
  have wf : host.disk.tree.WellFormed := rfl
  have content : (namesBench answerByName).compiler = ContentCompiler.ofAnswers answerByName := rfl
  let d : Discovery := ⟨⟨"/src"⟩, [.directory ⟨"/lib"⟩], {}, [["A.java"], ["B.java"], ["E.java"]]⟩
  have started : (start (namesBench answerByName) ⟨"/src"⟩).outcome host = (.ok d, host) := by
    rw [start_outcome]
    rfl
  obtain ⟨verdict, log, course⟩ := search_course content wf started
  have passed : verdict ["A.java"] = .ok none := course.verdict_eq (by decide +kernel)
  have case : verdict ["B.java"] = .ok (some (expectingCase "B" "same")) := course.verdict_eq (by decide +kernel)
  have fault : verdict ["E.java"] = .error (.compiler "E") := course.verdict_eq (by decide +kernel)
  have known : ((d.examineAt (namesBench answerByName) ["A.java"]).outcome host).1.toOption.map
      (fun r => (r.1, (r.2.find? .classPath "Base").isSome)) = some (none, true) := by decide +kernel
  refine ⟨d, verdict, log, wf, started, course, rfl, passed, ?_, ?_, ?_, ?_⟩
  · rw [itemsOf_cons_none passed, itemsOf_cons_some case, itemsOf_cons_error fault]
  · rw [examined_cons_none passed, examined_cons_some case, examined]
  · rw [examined_cons_none passed, examined_cons_some case, examined_cons_error fault]
  · generalize (d.examineAt (namesBench answerByName) ["A.java"]).outcome host = outcome at known
    obtain ⟨_ | ⟨nothing, warm⟩, left⟩ := outcome
    · cases known
    obtain ⟨rfl, base⟩ := Prod.mk.inj (Option.some.inj known)
    exact ⟨warm, left, rfl, base⟩

end Discovery

end ProcessorBench
