import ProcessorBench.Proofs.Compiling
import ProcessorBench.Proofs.Descending
import ProcessorBench.Proofs.TidySteps
import ProcessorBench.Suite.TestCase

/-!
# The class that a case compares

Several places have the name of a unit: for the unit `A` they are `A`, `A/class` and `A.class`. Artifacts are
gathered in the order of their places, where the last one of a name counts, and among the places of that name
`A.class` is the last (`UnitName.not_lt_of_ofNames?`). So the class of a unit without packages is the file that the
compiler has been asked for (`Workbench.gather_primary`), and a case compares the contents of two such files
(`TestCase.run_comparesPrimary`).
-/

namespace ProcessorBench

/-! ## The places of a name -/

namespace UnitName

variable {unit extension : String} {l : Location}

/-- An ending that has been left out has been there. -/
theorem eq_append_of_dropEnd? {ending text front : List Char} (dropped : dropEnd? ending text = some front) :
    text = front ++ ending := by
  unfold dropEnd? at dropped
  split at dropped
  next isEnd =>
    obtain ⟨before, rfl⟩ := List.isSuffixOf_iff_suffix.mp isEnd
    cases dropped
    simp
  next => cases dropped

/-- An ending that is there can be left out. -/
theorem dropEnd?_append (front ending : List Char) : dropEnd? ending (front ++ ending) = some front := by
  rw [dropEnd?, if_pos (List.isSuffixOf_iff_suffix.mpr (List.suffix_append _ _))]
  simp

/-- The names on the way to a unit, with points between them, are its name, or its name with the extension. -/
theorem joined_of_ofNames? (named : ofNames? l extension = some unit) :
    ".".intercalate l = unit ∨ ".".intercalate l = unit ++ "." ++ extension := by
  unfold ofNames? at named
  simp only at named
  split at named
  · cases named
  · cases named
    cases stem : (dropEnd? extension.toList (".".intercalate l).toList).bind (dropEnd? ['.']) with
    | none => exact .inl rfl
    | some front =>
      right
      obtain ⟨pointed, cut, cut'⟩ := Option.bind_eq_some_iff.mp stem
      rw [← String.toList_inj, eq_append_of_dropEnd? cut, eq_append_of_dropEnd? cut']
      simp

/-- A joined name begins with the first one. -/
theorem isPrefix_joined (name : String) (rest : List String) :
    name.toList <+: (".".intercalate (name :: rest)).toList := by
  cases rest with
  | nil => simp [String.intercalate_singleton]
  | cons next rest =>
    rw [String.intercalate_cons_cons, String.toList_append, String.toList_append, List.append_assoc]
    exact List.prefix_append _ _

/-- **The last place of a name** is the file of that name with the extension, in no directory. -/
theorem not_lt_of_ofNames? (named : ofNames? l extension = some unit) : ¬ [unit ++ "." ++ extension] < l := by
  cases l with
  | nil => exact List.not_lt_nil _
  | cons name rest =>
    -- The first name starts the text of them all, and that starts the name of the file.
    have joined : (".".intercalate (name :: rest)).toList <+: (unit ++ "." ++ extension).toList := by
      rcases joined_of_ofNames? named with whole | whole
      · rw [whole, String.toList_append, String.toList_append, List.append_assoc]
        exact List.prefix_append _ _
      · simp [whole]
    intro behind
    rcases List.cons_lt_cons_iff.mp behind with before | ⟨same, before⟩
    · exact ((isPrefix_joined name rest).trans joined).le (String.lt_iff_toList_lt.mp before)
    · cases rest with
      | nil => cases before
      | cons next rest =>
        have size := joined.length_le
        rw [same, String.intercalate_cons_cons] at size
        simp at size

/-- Names that end in the extension when they are put together lose it. -/
theorem ofNames?_of_dotted (dotted : ".".intercalate l = unit ++ "." ++ extension) :
    ofNames? l extension = if unit = "" then none else some unit := by
  have text : (".".intercalate l).toList = (unit.toList ++ ['.']) ++ extension.toList := by
    rw [dotted]
    simp
  unfold ofNames?
  simp only
  rw [text, dropEnd?_append, Option.bind_some, dropEnd?_append, Option.elim_some, String.ofList_toList]

/-- The file of a unit at the top has the name of the unit. -/
theorem ofNames?_file (nonempty : unit ≠ "") : ofNames? [unit ++ "." ++ extension] extension = some unit := by
  rw [ofNames?_of_dotted (String.intercalate_singleton ..), if_neg nonempty]

theorem append_class (unit : String) : unit ++ "." ++ "class" = unit ++ ".class" := String.append_assoc

/-- A unit without packages is in no directory. -/
theorem path?_class (plain : isPlain unit = true) (whole : '.' ∉ unit.toList) :
    path? unit "class" = some ⟨unit ++ ".class"⟩ := by
  unfold path?
  simp [Text.splitOn_of_not_mem whole, plain, suffix]

end UnitName

/-! ## What is gathered last -/

namespace ArtifactSet

variable {s s' : ArtifactSet} {name other : String} {a : Artifact} {l : Location} {content : Bytes}
  {files : List (Location × Bytes)}

/-- The first entry of a name is the one that is found. -/
theorem lookup_cons (name other : String) (a : Artifact) (entries : List (String × Artifact)) :
    ((name, a) :: entries).lookup other = if other = name then some a else entries.lookup other := by
  rw [List.lookup_cons]
  by_cases same : other = name
  · rw [if_pos same, beq_iff_eq.mpr same]
  · rw [if_neg same, beq_eq_false_iff_ne.mpr same]

/-- What is placed under a name is found there, and nothing else is changed. -/
theorem lookup_place (entries : List (String × Artifact)) :
    (place name a entries).lookup other = if other = name then some a else entries.lookup other := by
  induction entries with
  | nil => exact lookup_cons name other a []
  | cons entry rest ih =>
    obtain ⟨name', a'⟩ := entry
    unfold place
    split
    · exact lookup_cons name other a _
    · split
      next same =>
        subst same
        rw [lookup_cons, lookup_cons]
        split <;> rfl
      next differs =>
        rw [lookup_cons, lookup_cons, ih]
        by_cases same : other = name
        · rw [if_pos same, if_neg (same ▸ differs), if_pos same]
        · rw [if_neg same, if_neg same]

/-- Adding an artifact changes what its name stands for, and nothing else. -/
theorem find?_insert (s : ArtifactSet) (name other : String) (a : Artifact) :
    (s.insert name a).find? other = if other = name then some a else s.find? other :=
  lookup_place s.entries

/-- Files of other names do not change what is found under a name. -/
theorem find?_ofFiles_of_forall_ne (gathered : ofFiles s files = .ok s')
    (apart : ∀ file ∈ files, UnitName.ofNames? file.1 "class" ≠ some name) :
    s'.find? name = s.find? name := by
  induction files generalizing s with
  | nil =>
    cases gathered
    rfl
  | cons file files ih =>
    obtain ⟨location, content⟩ := file
    obtain ⟨first, apart⟩ := List.forall_mem_cons.mp apart
    unfold ofFiles at gathered
    split at gathered
    · cases gathered
    next given =>
      rw [ih gathered apart, find?_insert, if_neg]
      rintro rfl
      exact first given

/-- Files can be gathered some now and some later. -/
theorem ofFiles_append (before after : List (Location × Bytes)) :
    ofFiles s (before ++ after) = (ofFiles s before).bind fun s => ofFiles s after := by
  induction before generalizing s with
  | nil => rfl
  | cons file before ih =>
    obtain ⟨location, content⟩ := file
    rw [List.cons_append, ofFiles, ofFiles]
    split
    · rfl
    · exact ih

/-- **The last file of a name** is what the name stands for. -/
theorem find?_ofFiles_of_last {before after : List (Location × Bytes)}
    (gathered : ofFiles s (before ++ (l, content) :: after) = .ok s')
    (named : UnitName.ofNames? l "class" = some name)
    (last : ∀ file ∈ after, UnitName.ofNames? file.1 "class" ≠ some name) :
    s'.find? name = some ⟨l, content⟩ := by
  rw [ofFiles_append] at gathered
  obtain ⟨s₀, _, gathered⟩ := bind_eq_ok.mp gathered
  rw [ofFiles, named] at gathered
  rw [find?_ofFiles_of_forall_ne gathered last, find?_insert, if_pos rfl]

/-- The class in no directory is what its name stands for, whatever else there is in the tree. -/
theorem find?_ofFiles_primary {t : FileTree} {unit : String} {executable : Bool} (wf : t.WellFormed)
    (nonempty : unit ≠ "") (has : t.at? [unit ++ ".class"] = some (.file content executable))
    (gathered : ofFiles {} t.files = .ok s) : s.find? unit = some ⟨[unit ++ ".class"], content⟩ := by
  have mem := (FileTree.mem_files_iff wf).mpr ⟨executable, has⟩
  have ascending := FileTree.files_ascending wf
  obtain ⟨before, after, split⟩ := List.append_of_mem mem
  rw [split] at gathered ascending
  have named : UnitName.ofNames? [unit ++ ".class"] "class" = some unit := by
    rw [← UnitName.append_class]
    exact UnitName.ofNames?_file nonempty
  refine find?_ofFiles_of_last gathered named fun file later same => ?_
  rw [List.map_append, List.map_cons, List.pairwise_append, List.pairwise_cons] at ascending
  have behind := ascending.2.1.1 file.1 (List.mem_map_of_mem later)
  have ahead := UnitName.not_lt_of_ofNames? same
  rw [UnitName.append_class] at ahead
  exact ahead behind

end ArtifactSet

/-! ## The file of a class -/

namespace Disk

variable {d : Disk} {p : Path} {name : String} {t u : FileTree}

/-- What is at a name below a directory is there in the tree of the directory. -/
theorem at?_of_lookup_join (named : Path.isName name = true) (above : d.lookup p = .ok t)
    (below : d.lookup (p.join ⟨name⟩) = .ok u) : t.at? [name] = some u := by
  obtain ⟨l, located, has⟩ := lookup_eq_ok.mp above
  obtain ⟨l', located', has'⟩ := lookup_eq_ok.mp below
  have each : ∀ n ∈ [name], Path.isName n = true := by simpa using named
  have whole : ∀ n ∈ [name], '/' ∉ n.toList := fun n mem => (Path.isName_iff.mp (each n mem)).2.2.2
  rw [← Path.joinAll_singleton, locate_joinAll (text_ne_empty_of_locate located) whole, located] at located'
  obtain ⟨_, _, leads⟩ := bind_eq_ok.mp located'
  rw [eq_append_of_follow each leads, FileTree.at?_append, has] at has'
  exact has'

end Disk

namespace Workbench

variable {b : Workbench} {unit : String} {set : ArtifactSet}

/-- **The class of a unit** without packages, among what is gathered, is the file of the class in the directory
for classes. -/
theorem gather_primary {w : Workspace} {accepted : Bool} {disk : Disk} (plain : UnitName.isPlain unit = true)
    (whole : '.' ∉ unit.toList) (wf : disk.tree.WellFormed)
    (gathered : gather w unit accepted disk = .ok (some set)) :
    ∃ content, disk.read (w.classesDir.join ⟨unit ++ ".class"⟩) = .ok content ∧
      set.find? unit = some ⟨[unit ++ ".class"], content⟩ := by
  obtain ⟨_, ⟨file, place, made⟩, collected⟩ := gather_eq_some gathered
  rw [UnitName.path?_class plain whole, Option.some.injEq] at place
  subst place
  have named : Path.isName (unit ++ ".class") = true :=
    UnitName.isName_of_isPlain plain whole ".class" (by decide)
  have nonempty : unit ≠ "" := by
    rintro rfl
    cases plain
  -- The file that has been found is the one that is collected under the name of the class.
  unfold Disk.isFile at made
  cases below : disk.lookup (w.classesDir.join ⟨unit ++ ".class"⟩) with
  | error fault =>
    rw [below] at made
    cases made
  | ok u =>
    rw [below] at made
    cases u with
    | dir => cases made
    | file content executable =>
      refine ⟨content, ?_, ?_⟩
      · rw [Disk.read, below]
        rfl
      · unfold ArtifactSet.collect at collected
        split at collected
        · cases collected
        next t above =>
          have has := Disk.at?_of_lookup_join named above below
          exact ArtifactSet.find?_ofFiles_primary (Disk.wellFormed_lookup wf above) nonempty has collected

/-- A compilation gives something only if its workspace can be removed. -/
theorem settle_eq_ok {α : Type} {w : Workspace} {result : Except CompileError α} {h h' : Host} {a : α} :
    (settle w result).outcome h = (.ok a, h') ↔ result = .ok a ∧ w.close.outcome h = (.ok (), h') := by
  rw [settle, TemporaryDirs.settle_outcome, Workspace.close]
  rcases (TemporaryDirs.numbered.close w).outcome h with ⟨_ | _, h'⟩ <;> cases result <;> simp

/-- Compiling a unit on the host `h` makes the workspace `w` and asks the compiler, which accepts the source and
leaves the host `left`. -/
def Accepts (b : Workbench) (unit : String) (source : Option String) (processor : Option Processor) (h : Host)
    (w : Workspace) (left : Host) : Prop :=
  ∃ place sourceFile created asked, UnitName.path? unit "java" = some place ∧
    Workspace.create.outcome h = (.ok w, created) ∧
    (b.prepare w unit place source processor).outcome created = (.ok sourceFile, asked) ∧
    (b.compiler.call (b.request w sourceFile processor)).outcome asked = (.ok true, left)

/-- **Artifacts that a compilation gives** are gathered from what its compiler has left, which has accepted the
source. -/
theorem exists_accepts_of_compile (tidy : b.compiler.Tidy) {source : Option String}
    {processor : Option Processor} {h h' : Host} (wf : h.disk.tree.WellFormed)
    (given : (b.compile unit source processor).outcome h = (.ok (some set), h')) :
    ∃ w left, b.Accepts unit source processor h w left ∧ left.disk.tree.WellFormed ∧
      gather w unit true left.disk = .ok (some set) := by
  rw [compile_eq] at given
  cases found : UnitName.path? unit "java" with
  | none =>
    rw [found] at given
    cases given
  | some place =>
    rw [found] at given
    -- From the end of a compilation back to its start: each step has succeeded, and left a tree that is one.
    obtain ⟨w, h₁, created, given⟩ := HostStep.outcome_bind_eq_ok.mp given
    have wf₁ := Workspace.tidy_create.of_outcome wf created
    rw [HostStep.outcome_attempt_bind, settle_eq_ok] at given
    obtain ⟨_, compiled⟩ := HostStep.exists_outcome given.1
    obtain ⟨sourceFile, h₂, prepared, given⟩ := HostStep.outcome_bind_eq_ok.mp compiled
    have wf₂ := (b.tidy_prepare w unit place source processor).of_outcome wf₁ prepared
    obtain ⟨accepted, h₃, asked, given⟩ := HostStep.outcome_bind_eq_ok.mp given
    have wf₃ := (tidy.call _).of_outcome wf₂ asked
    obtain ⟨disk, h₄, looked, given⟩ := HostStep.outcome_bind_eq_ok.mp given
    cases looked
    rw [HostStep.outcome_ofExcept] at given
    obtain ⟨gathered, _⟩ := Prod.mk.inj given
    obtain ⟨rfl, _⟩ := gather_eq_some gathered
    exact ⟨w, h₃, ⟨place, sourceFile, h₁, h₂, found, created, prepared, asked⟩, wf₃, gathered⟩

end Workbench

/-! ## Cases -/

namespace TestCase

variable {b : Workbench}

/-- One side of a case is the class that its compilation gives. -/
theorem compileSide_outcome (b : Workbench) (side : Side) (source : String) (processor : Option Processor)
    (h : Host) : (compileSide b side source processor).outcome h =
      (classOf side ((b.compile exampleClass (some source) processor).outcome h).1,
        ((b.compile exampleClass (some source) processor).outcome h).2) := by
  rw [compileSide, HostStep.outcome_attempt_bind, HostStep.outcome_ofExcept]

/-- One side of a case leaves the disk in order. -/
theorem tidy_compileSide (tidy : b.compiler.Tidy) (side : Side) (source : String)
    (processor : Option Processor) : (compileSide b side source processor).Tidy :=
  (Workbench.tidy_compile tidy exampleClass (some source) processor).attempt.bind fun _ =>
    HostStep.tidy_ofExcept _

/-- The class that a compilation for a case has to make is the file of the class, as the compiler has left it. -/
theorem compileSide_primary (tidy : b.compiler.Tidy) {h : Host} (wf : h.disk.tree.WellFormed) (side : Side)
    {source : String} {processor : Option Processor} {set : ArtifactSet}
    (given : ((b.compile exampleClass (some source) processor).outcome h).1 = .ok (some set)) :
    ∃ w left content, b.Accepts exampleClass (some source) processor h w left ∧
      Workbench.gather w exampleClass true left.disk = .ok (some set) ∧
      left.disk.read (w.classesDir.join ⟨"Example.class"⟩) = .ok content ∧
      set.find? exampleClass = some ⟨["Example.class"], content⟩ ∧
      ((compileSide b side source processor).outcome h).1 = .ok content := by
  obtain ⟨_, compiled⟩ := HostStep.exists_outcome given
  obtain ⟨w, left, accepted, wf', gathered⟩ := Workbench.exists_accepts_of_compile tidy wf compiled
  obtain ⟨content, read, found⟩ := Workbench.gather_primary (by decide) (by decide) wf' gathered
  refine ⟨w, left, content, accepted, gathered, read, found, ?_⟩
  rw [compileSide_outcome, given, classOf, found]

/-- **A compilation does not lack the class of a case** if it gives artifacts at all. -/
theorem compileSide_ne_missingArtifact (tidy : b.compiler.Tidy) {h h' : Host} (wf : h.disk.tree.WellFormed)
    {side side' : Side} {source unit : String} {processor : Option Processor} :
    (compileSide b side source processor).outcome h ≠ (.error (.missingArtifact side' unit), h') := by
  intro failed
  cases given : ((b.compile exampleClass (some source) processor).outcome h).1 with
  | error e =>
    rw [compileSide_outcome, given] at failed
    cases failed
  | ok made =>
    cases made with
    | none =>
      rw [compileSide_outcome, given] at failed
      cases failed
    | some set =>
      obtain ⟨_, _, _, _, _, _, _, compiled⟩ := compileSide_primary tidy wf side given
      rw [failed] at compiled
      cases compiled

/-- Comparing two classes fails where one has no normal form, or where the normal forms are different. -/
theorem compareClasses_eq_error {name : String} {compiled compiled' : Bytes} {f : CaseFailure}
    (failed : compareClasses name compiled compiled' = .error f) :
    (∃ side e, f = .normalize side e) ∨
      ∃ normal normal', ClassFile.normalize compiled = .ok normal ∧
        ClassFile.normalize compiled' = .ok normal' ∧ normal ≠ normal' ∧
        f = .mismatch name (.between normal normal') := by
  rcases bind_eq_error.mp failed with failed | ⟨normal, run, failed⟩
  · obtain ⟨e, _, rfl⟩ := mapError_eq_error.mp failed
    exact .inl ⟨_, e, rfl⟩
  rcases bind_eq_error.mp failed with failed | ⟨normal', run', failed⟩
  · obtain ⟨e, _, rfl⟩ := mapError_eq_error.mp failed
    exact .inl ⟨_, e, rfl⟩
  split at failed
  · cases failed
  next differ =>
    cases failed
    exact .inr ⟨normal, normal', mapError_eq_ok.mp run, mapError_eq_ok.mp run', differ, rfl⟩

/-- **A case compares the right files.** Whatever a compiler leaves among the classes, and whatever of that has
the name of the class by which it is looked for: if a compilation for a case gives artifacts, then that class is
among them, its place is `Example.class` in the directory for classes, and its content is that of the file there,
as the compiler has left it. So no case fails because an accepted source has made no such class. -/
theorem run_comparesPrimary (b : Workbench) (tidy : b.compiler.Tidy) (h : Host) (wf : h.disk.tree.WellFormed) :
    (∀ (side : Side) (source : String) (processor : Option Processor) (set : ArtifactSet),
      ((b.compile exampleClass (some source) processor).outcome h).1 = .ok (some set) →
      ∃ w left content, b.Accepts exampleClass (some source) processor h w left ∧
        Workbench.gather w exampleClass true left.disk = .ok (some set) ∧
        left.disk.read (w.classesDir.join ⟨"Example.class"⟩) = .ok content ∧
        set.find? exampleClass = some ⟨["Example.class"], content⟩ ∧
        ((compileSide b side source processor).outcome h).1 = .ok content) ∧
    ∀ (c : TestCase) (side : Side) (unit : String),
      ((c.run b).outcome h).1 ≠ .error (.missingArtifact side unit) := by
  refine ⟨fun side _ _ _ given => compileSide_primary tidy wf side given, fun c side unit failed => ?_⟩
  obtain ⟨h', failed⟩ := HostStep.exists_outcome failed
  obtain ⟨name, plan⟩ := c
  cases plan with
  | missingExpected => cases failed
  | compare processor stub expected =>
    rcases HostStep.outcome_bind_eq_error.mp failed with failed | ⟨compiled, middle, first, failed⟩
    · exact compileSide_ne_missingArtifact tidy wf failed
    have wf' := (tidy_compileSide tidy _ stub (some processor)).of_outcome wf first
    rcases HostStep.outcome_bind_eq_error.mp failed with failed | ⟨compiled', last, _, failed⟩
    · exact compileSide_ne_missingArtifact tidy wf' failed
    rw [HostStep.outcome_ofExcept] at failed
    rcases compareClasses_eq_error (Prod.mk.inj failed).1 with ⟨_, _, same⟩ | ⟨_, _, _, _, _, same⟩ <;> cases same

/-- A workbench whose compiler leaves two files of one name, and another one. -/
def crowdedBench : Workbench where
  sourceRoot := ⟨"/src"⟩
  classPath := []
  compiler := RuleCompiler.ofRules
    [{ source := some "class Example"
       outputs := [(⟨"Example.class"⟩, some [1]), (⟨"Example/class"⟩, some [2]), (⟨"notes"⟩, some [3])] }]

/-- The class of a case is compared, whatever other artifacts there are. -/
theorem run_comparesPrimary_crowded :
    crowdedBench.compiler.Tidy ∧ Workbench.bareHost.disk.tree.WellFormed ∧
      ((crowdedBench.compile exampleClass (some "class Example") none).outcome Workbench.bareHost).1 =
        .ok (some ⟨[("Example", ⟨["Example.class"], [1]⟩), ("notes", ⟨["notes"], [3]⟩)]⟩) ∧
      ((compileSide crowdedBench .expected "class Example" none).outcome Workbench.bareHost).1 = .ok [1] ∧
      ∀ (c : TestCase) (side : Side) (unit : String),
        ((c.run crowdedBench).outcome Workbench.bareHost).1 ≠ .error (.missingArtifact side unit) := by
  have tidy : crowdedBench.compiler.Tidy := RuleCompiler.tidy_ofRules _
  have wf : Workbench.bareHost.disk.tree.WellFormed := rfl
  have given : ((crowdedBench.compile exampleClass (some "class Example") none).outcome
      Workbench.bareHost).1 =
      .ok (some ⟨[("Example", ⟨["Example.class"], [1]⟩), ("notes", ⟨["notes"], [3]⟩)]⟩) := by decide +kernel
  obtain ⟨primary, never⟩ := run_comparesPrimary crowdedBench tidy Workbench.bareHost wf
  obtain ⟨_, _, content, _, _, _, found, compiled⟩ := primary .expected "class Example" none _ given
  have read : content = [1] := by
    cases found
    rfl
  exact ⟨tidy, wf, given, read ▸ compiled, never⟩

end TestCase

end ProcessorBench
