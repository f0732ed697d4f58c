import ProcessorBench.Proofs.LoaderWalks
import ProcessorBench.Proofs.PrimaryArtifact
import ProcessorBench.Proofs.Reports

/-!
# Declared tests

A source file declares a test if its class is a processor whose first declaration says what a search has to know: a
marker that is an annotation type, and a target (`Discovery.DeclaredTest`). Such a file gives a case
(`Discovery.DeclaredTest.gives_case`). What is expected of the processor is no business of the search. A declaration
that does not say it gives a case as well, one that fails when it is run, before anything is compiled.

To find out whether a class is a processor, a search has to know all its supertypes, also those that have nothing to do
with processors. If one of them cannot be loaded, the file gives no case, and the search ends with the fault.
-/

namespace ProcessorBench

/-! ## Declarations -/

namespace AnnotationContent

variable {a : AnnotationContent} {name : String} {value : AnnotationValue}

/-- The first element of the name has the value. -/
def First (a : AnnotationContent) (name : String) (value : AnnotationValue) : Prop :=
  ∃ before after, a.elements = before ++ ⟨name, value⟩ :: after ∧ ∀ e ∈ before, e.name ≠ name

/-- The value of an element is that of the first one of its name. -/
theorem element?_eq_some : a.element? name = some value ↔ a.First name value := by
  simp only [element?, Option.map_eq_some_iff, List.find?_eq_some_iff_append, decide_eq_true_eq,
    Bool.not_eq_true', decide_eq_false_iff_not]
  constructor
  · rintro ⟨⟨_, _⟩, ⟨rfl, before, after, split, others⟩, rfl⟩
    exact ⟨before, after, split, others⟩
  · rintro ⟨before, after, split, others⟩
    exact ⟨⟨name, value⟩, ⟨rfl, before, after, split, others⟩, rfl⟩

/-- There is no value of an element that is not there. -/
theorem element?_eq_none : a.element? name = none ↔ ∀ e ∈ a.elements, e.name ≠ name := by
  simp [element?]

/-- What is expected is in a file of the name, relative to the place that is searched. -/
structure NamesFile (a : AnnotationContent) (file : String) : Prop where
  first : a.First "expectedFile" (.string file)
  nonempty : file ≠ ""

/-- Nothing is expected: there is no file, and there are no lines under either name. -/
structure LacksExpected (a : AnnotationContent) : Prop where
  file : ∀ file, ¬ a.NamesFile file
  lines : ∀ name ∈ ["expected", "source"], ∀ values, a.First name (.array values) → values = []

/-- The marker that is named: the class of a literal, or the one for declarations without a marker. -/
inductive Marks (a : AnnotationContent) : String → Prop where
  | default (absent : ∀ e ∈ a.elements, e.name ≠ "annotation") : a.Marks Declaration.defaultMarker
  | literal {internal : String} (first : a.First "annotation" (.classInfo ("L" ++ internal ++ ";")))
    (nonempty : internal ≠ "") : a.Marks (ClassName.ofInternal internal)

/-- The target that is named. -/
def Targets (a : AnnotationContent) (target : Target) : Prop :=
  a.First "target" (.enumConst Declaration.elementTypeDescriptor target.elementType)

end AnnotationContent

namespace AnnotationValue

variable {v : AnnotationValue}

theorem string?_eq_some {text : String} : v.string? = some text ↔ v = .string text := by
  cases v <;> simp [string?]

theorem values?_eq_some {values : List AnnotationValue} :
    v.values? = some values ↔ v = .array values ∧ values ≠ [] := by
  cases v with
  | array given =>
    rw [values?, Option.ite_none_left_eq_some, List.isEmpty_iff, array.injEq]
    constructor
    · rintro ⟨nonempty, same⟩
      cases same
      exact ⟨rfl, nonempty⟩
    · rintro ⟨rfl, nonempty⟩
      exact ⟨nonempty, rfl⟩
  | _ => simp [values?]

end AnnotationValue

/-- A descriptor that stands for a class holds its internal name. -/
theorem ClassName.ofDescriptor?_eq_some {descriptor name : String} : ofDescriptor? descriptor = some name ↔
    ∃ internal, descriptor = "L" ++ internal ++ ";" ∧ internal ≠ "" ∧ name = ofInternal internal := by
  constructor
  · intro given
    unfold ofDescriptor? at given
    split at given
    next rest whole =>
      obtain ⟨object, same⟩ := Option.ite_none_right_eq_some.mp given
      simp only [Bool.and_eq_true, decide_eq_true_eq] at object
      obtain ⟨ends, long⟩ := object
      refine ⟨String.ofList rest.dropLast, ?_, fun empty => ?_, (Option.some.inj same).symm⟩
      · have literal : ("L" ++ String.ofList rest.dropLast ++ ";").toList = 'L' :: (rest.dropLast ++ [';']) := by
          simp [String.toList_append]
        rw [← String.toList_inj, literal, whole, List.dropLast_append_getLast? _ ends]
      · have short := congrArg List.length (String.ofList_eq_empty_iff.mp empty)
        rw [List.length_dropLast, List.length_nil] at short
        omega
    next => cases given
  · rintro ⟨internal, rfl, nonempty, rfl⟩
    have whole : ("L" ++ internal ++ ";").toList = 'L' :: (internal.toList ++ [';']) := by
      simp [String.toList_append]
    have long : 0 < internal.toList.length := by
      rw [List.length_pos_iff]
      exact mt String.toList_eq_nil_iff.mp nonempty
    simp [ofDescriptor?, whole, long]

/-- A constant stands for the target that it is the constant of, and for no other. -/
theorem Target.ofElementType?_eq_some {constant : String} {target : Target} :
    ofElementType? constant = some target ↔ constant = target.elementType := by
  refine ⟨fun given => ?_, fun same => same ▸ ofElementType?_elementType target⟩
  unfold ofElementType? at given
  split at given <;> cases given <;> rfl

namespace Declaration

variable {a : AnnotationContent} {marker : String} {target : Target} {file : String}
  {values : List AnnotationValue}

/-- A marker is read exactly if one is named. -/
theorem markerOf_eq_ok : markerOf a = .ok marker ↔ a.Marks marker := by
  constructor
  · intro given
    unfold markerOf at given
    split at given
    next absent =>
      cases given
      exact .default (AnnotationContent.element?_eq_none.mp absent)
    next descriptor first =>
      split at given
      next name literal =>
        cases given
        obtain ⟨internal, rfl, nonempty, rfl⟩ := ClassName.ofDescriptor?_eq_some.mp literal
        exact .literal (AnnotationContent.element?_eq_some.mp first) nonempty
      next => cases given
    next => cases given
  · intro marks
    cases marks with
    | default absent => rw [markerOf, AnnotationContent.element?_eq_none.mpr absent]
    | literal first nonempty =>
      rw [markerOf, AnnotationContent.element?_eq_some.mpr first]
      simp only [ClassName.ofDescriptor?_eq_some.mpr ⟨_, rfl, nonempty, rfl⟩]

/-- A target is read exactly if one is named. -/
theorem targetOf_eq_ok : targetOf a = .ok target ↔ a.Targets target := by
  constructor
  · intro given
    unfold targetOf at given
    split at given
    next => cases given
    next value first =>
      split at given
      next descriptor constant =>
        split at given
        next elementType =>
          split at given
          next target' known =>
            cases given
            rw [elementType, Target.ofElementType?_eq_some.mp known] at first
            exact AnnotationContent.element?_eq_some.mp first
          next => cases given
        next => cases given
      next => cases given
  · intro targets
    rw [targetOf, AnnotationContent.element?_eq_some.mpr targets]
    simp only [if_true, Target.ofElementType?_elementType]

/-- A declaration can be read exactly if it has a marker and a target. -/
theorem ofContent_eq_ok {declaration : Declaration} : ofContent a = .ok declaration ↔
    a.Marks declaration.marker ∧ a.Targets declaration.target ∧ declaration.expected = expectedOf a := by
  rw [ofContent, bind_eq_ok]
  simp only [bind_eq_ok, markerOf_eq_ok, targetOf_eq_ok]
  constructor
  · rintro ⟨marker, marks, target, targets, same⟩
    cases same
    exact ⟨marks, targets, rfl⟩
  · obtain ⟨marker, target, expected⟩ := declaration
    rintro ⟨marks, targets, rfl⟩
    exact ⟨marker, marks, target, targets, rfl⟩

/-- The text that is taken for the name of a file. -/
theorem file_eq_some :
    ((a.element? "expectedFile").bind (·.string?)).filter (· ≠ "") = some file ↔ a.NamesFile file := by
  rw [Option.filter_eq_some_iff, Option.bind_eq_some_iff, decide_eq_true_eq]
  constructor
  · rintro ⟨⟨value, given, text⟩, nonempty⟩
    cases AnnotationValue.string?_eq_some.mp text
    exact ⟨AnnotationContent.element?_eq_some.mp given, nonempty⟩
  · rintro ⟨first, nonempty⟩
    exact ⟨⟨_, AnnotationContent.element?_eq_some.mpr first, rfl⟩, nonempty⟩

/-- The values of an element that are taken for lines. -/
theorem lines_eq_some {name : String} : (a.element? name).bind (·.values?) = some values ↔
    a.First name (.array values) ∧ values ≠ [] := by
  rw [Option.bind_eq_some_iff]
  constructor
  · rintro ⟨value, given, array⟩
    obtain ⟨rfl, nonempty⟩ := AnnotationValue.values?_eq_some.mp array
    exact ⟨AnnotationContent.element?_eq_some.mp given, nonempty⟩
  · rintro ⟨first, nonempty⟩
    exact ⟨_, AnnotationContent.element?_eq_some.mpr first, AnnotationValue.values?_eq_some.mpr ⟨rfl, nonempty⟩⟩

/-- There are no lines exactly if what stands under either name is empty. -/
theorem lines_eq_none : (["expected", "source"].findSome? fun name => (a.element? name).bind (·.values?)) = none ↔
    ∀ name ∈ ["expected", "source"], ∀ values, a.First name (.array values) → values = [] := by
  rw [List.findSome?_eq_none_iff]
  refine forall₂_congr fun name _ => ?_
  rw [Option.eq_none_iff_forall_ne_some]
  refine forall_congr' fun values => ?_
  rw [ne_eq, lines_eq_some]
  tauto

/-- **A file comes before lines**, whatever else there is. -/
theorem expectedOf_eq_file : expectedOf a = .file ⟨file⟩ ↔ a.NamesFile file := by
  rw [← file_eq_some, expectedOf]
  generalize ((a.element? "expectedFile").bind (·.string?)).filter (· ≠ "") = named
  cases named with
  | some file => simp
  | none =>
    simp only [reduceCtorEq, iff_false]
    split <;> simp

/-- Without a file, lines under the first name are what is expected. -/
theorem expectedOf_of_lines (none : ∀ file, ¬ a.NamesFile file) (first : a.First "expected" (.array values))
    (nonempty : values ≠ []) : expectedOf a = .inline (values.filterMap (·.string?)) := by
  have file := Option.eq_none_iff_forall_ne_some.mpr fun file => mt file_eq_some.mp (none file)
  rw [expectedOf, file]
  simp only [List.findSome?_cons, lines_eq_some.mpr ⟨first, nonempty⟩]

/-- **Nothing is expected** exactly if there is neither a file nor a line. -/
theorem expectedOf_eq_missing : expectedOf a = .missing ↔ a.LacksExpected := by
  have file : ((a.element? "expectedFile").bind (·.string?)).filter (· ≠ "") = none ↔ ∀ file, ¬ a.NamesFile file := by
    simp only [Option.eq_none_iff_forall_ne_some, ne_eq, file_eq_some]
  have parts : a.LacksExpected ↔ _ ∧ _ := ⟨fun lacks => ⟨lacks.file, lacks.lines⟩, fun lacks => ⟨lacks.1, lacks.2⟩⟩
  rw [parts, ← file, ← lines_eq_none, expectedOf]
  generalize ((a.element? "expectedFile").bind (·.string?)).filter (· ≠ "") = named
  generalize (["expected", "source"].findSome? fun name => (a.element? name).bind (·.values?)) = lines
  cases named <;> cases lines <;> simp

end Declaration

/-! ## Classes that implement an interface -/

/-- A walk that ends has found the interfaces that can be reached, in whatever way they are declared. -/
theorem Supertypes.Walks.mem_of_isInterface {ε : Type} {resolve : String → Except ε LoadedClass} {c : LoadedClass}
    {p : Progress} {found : List String} {name : String} (walks : Walks resolve p (.ok found))
    (way : OnTheWay resolve c p)
    (seen : ∀ name ∈ p.visited, name ≠ c.name → IsInterface resolve name → name ∈ p.found)
    (reaches : Reaches resolve c name) (interface : IsInterface resolve name) : name ∈ found := by
  generalize ended : Except.ok found = result at walks
  induction walks with
  | finish =>
    cases ended
    obtain ⟨other, m, above, names⟩ := reaches
    exact seen name (way.mem_visited above names) other interface
  | skip here _ ih => exact ih (way.skip here) seen ended
  | fail => cases ended
  | @look visited found' next declared pending k result new resolved _ ih =>
    refine ih (way.look new resolved) (fun name mem other interface => ?_) ended
    rcases List.mem_cons.mp mem with rfl | mem
    · obtain ⟨k', resolved', isInterface⟩ := interface
      cases resolved.symm.trans resolved'
      exact Progress.mem_found_look.mpr (.inl ⟨rfl, by rw [isInterface, Bool.or_true]⟩)
    · exact Progress.mem_found_look.mpr (.inr (seen name mem other interface))

/-- What a walk has found can be reached. -/
theorem Supertypes.Walks.reaches_of_mem {ε : Type} {resolve : String → Except ε LoadedClass} {c : LoadedClass}
    {p : Progress} {found : List String} {name : String} (walks : Walks resolve p (.ok found))
    (way : OnTheWay resolve c p) (mem : name ∈ found) : Reaches resolve c name := by
  generalize ended : Except.ok found = result at walks
  induction walks with
  | finish =>
    cases ended
    obtain ⟨seen, other, _⟩ := way.found name mem
    exact (way.visited name seen other).1
  | skip here _ ih => exact ih (way.skip here) ended
  | fail => cases ended
  | look new resolved _ ih => exact ih (way.look new resolved) ended

/-- What is made of a result does not change what has been loaded. -/
theorem LoadStep.outcome_bind_pure {α β : Type} (x : LoadStep α) (f : α → β) (d : Definitions) :
    (x >>= fun a => pure (f a)).outcome d = ((x.outcome d).1.map f, (x.outcome d).2) := by
  rw [outcome_bind]
  rcases x.outcome d with ⟨_ | a, later⟩ <;> rfl

/-- What a step gives, it gives together with definitions. -/
theorem LoadStep.exists_outcome {α : Type} {x : LoadStep α} {d : Definitions} {r : Except LoadError α}
    (given : (x.outcome d).1 = r) : ∃ later, x.outcome d = (r, later) := ⟨(x.outcome d).2, Prod.ext given rfl⟩

namespace ClassLoader

open Supertypes

variable {l : ClassLoader} {disk : Disk} {d : Definitions} {c k : LoadedClass} {name interface : String}

/-- A class implements an interface, by itself or through its supertypes. -/
structure Implements (l : ClassLoader) (disk : Disk) (c : LoadedClass) (interface : String) : Prop where
  reaches : Reaches (l.ask disk) c interface
  isInterface : IsInterface (l.ask disk) interface

/-- All supertypes of a class can be loaded. -/
def LoadsSupertypes (l : ClassLoader) (disk : Disk) (c : LoadedClass) : Prop :=
  ∀ name, Reaches (l.ask disk) c name → ∃ k, l.ask disk name = .ok k

/-- What is said of a class when nothing has been loaded is said of it whatever has been loaded before. -/
theorem exists_load_of_ask (sound : l.Sound disk d) (asked : l.ask disk name = .ok k) : ∃ definition later,
    (l.load disk name).outcome d = (.ok definition, later) ∧ definition.content = k ∧ l.Sound disk later := by
  obtain ⟨r, gives⟩ := l.load_stateless disk name
  obtain ⟨here, kept⟩ := gives.outcome sound
  rw [← (gives.outcome (l.sound_empty disk)).1, ← ask, asked] at here
  generalize (l.load disk name).outcome d = outcome at here kept
  obtain ⟨_ | definition, later⟩ := outcome
  · cases here
  · exact ⟨definition, later, rfl, Except.ok.inj here, kept⟩

/-- What a loader gives is said of the name, whatever has been loaded before. -/
theorem ask_of_load (sound : l.Sound disk d) {definition : Definition} {later : Definitions}
    (loads : (l.load disk name).outcome d = (.ok definition, later)) :
    l.ask disk name = .ok definition.content ∧ l.Sound disk later := by
  obtain ⟨r, gives⟩ := l.load_stateless disk name
  obtain ⟨here, kept⟩ := gives.outcome sound
  rw [loads] at here kept
  exact ⟨(gives.outcome (l.sound_empty disk)).1.trans here.symm, kept⟩

/-- **That a class implements an interface is found out**, whatever has been loaded before, if all its supertypes can be
loaded. -/
theorem Implements.exists_outcome (given : l.Implements disk c interface) (known : l.LoadsSupertypes disk c)
    (sound : l.Sound disk d) (few : (direct c).length ≤ UInt16.size) : ∃ later,
      (l.implements disk c interface).outcome d = (.ok true, later) ∧ l.Sound disk later := by
  obtain ⟨walks, tells⟩ := interfaces_tells sound few
  obtain ⟨found, ended⟩ := tells.succeeds.mpr known
  rw [ended] at walks
  have mem := walks.mem_of_isInterface (onTheWay_start _ c)
    (fun name mem other => absurd (List.mem_singleton.mp mem) other) given.reaches given.isInterface
  have answer : ((l.implements disk c interface).outcome d).1 = .ok true := by
    rw [implements, LoadStep.outcome_bind_pure, ended]
    exact congrArg Except.ok (List.contains_iff_mem.mpr mem)
  obtain ⟨r, gives⟩ := l.implements_stateless disk c interface
  obtain ⟨later, same⟩ := LoadStep.exists_outcome answer
  have kept := (gives.outcome sound).2
  rw [same] at kept
  exact ⟨later, same, kept⟩

/-- If a supertype cannot be loaded, nothing is found out about the interfaces of a class. -/
theorem exists_outcome_of_unknown (unknown : ¬ l.LoadsSupertypes disk c) (sound : l.Sound disk d)
    (few : (direct c).length ≤ UInt16.size) (interface : String) : ∃ name fault later,
      Reaches (l.ask disk) c name ∧ l.ask disk name = .error fault ∧
        (l.implements disk c interface).outcome d = (.error fault, later) := by
  obtain ⟨-, tells⟩ := interfaces_tells sound few
  cases ended : ((l.interfaces disk c).outcome d).1 with
  | ok found => exact absurd (tells.succeeds.mp ⟨found, ended⟩) unknown
  | error fault =>
    obtain ⟨name, reaches, failed⟩ := tells.fails fault ended
    refine ⟨name, fault, ((l.interfaces disk c).outcome d).2, reaches, failed, ?_⟩
    rw [implements, LoadStep.outcome_bind_pure, ended]
    rfl

/-- What is found to implement an interface does so, and all its supertypes can be loaded. -/
theorem implements_of_outcome (sound : l.Sound disk d) (few : (direct c).length ≤ UInt16.size)
    (isInterface : IsInterface (l.ask disk) interface) {later : Definitions}
    (given : (l.implements disk c interface).outcome d = (.ok true, later)) :
    l.Implements disk c interface ∧ l.LoadsSupertypes disk c ∧ l.Sound disk later := by
  obtain ⟨walks, tells⟩ := interfaces_tells sound few
  obtain ⟨r, gives⟩ := l.implements_stateless disk c interface
  have kept := (gives.outcome sound).2
  rw [given] at kept
  have answer := congrArg Prod.fst given
  rw [implements, LoadStep.outcome_bind_pure] at answer
  generalize ((l.interfaces disk c).outcome d).1 = result at walks tells answer
  cases result with
  | error e => cases answer
  | ok found =>
    have mem : interface ∈ found := List.contains_iff_mem.mp (Except.ok.inj answer)
    exact ⟨⟨walks.reaches_of_mem (onTheWay_start _ c) mem, isInterface⟩, tells.succeeds.mp ⟨found, rfl⟩, kept⟩

end ClassLoader

/-- What can be read is a file. -/
theorem Disk.isFile_of_readText? {disk : Disk} {p : Path} {text : String} (given : disk.readText? p = some text) :
    disk.isFile p = true := by
  unfold readText? at given
  split at given
  next content read =>
    obtain ⟨tree, found, read⟩ := bind_eq_ok.mp read
    rw [isFile, found]
    cases tree with
    | file => rfl
    | dir => cases read
  next => cases given

namespace Discovery

variable {d : Discovery} {b : Workbench} {h : Host} {file : Location}

/-! ## Files that declare tests -/

/-- The loader for the classes of a compilation. -/
def loaderOf (d : Discovery) (artifacts : ArtifactSet) : ClassLoader := ⟨artifacts.classes, .classPath d.classPath⟩

/-- A source file that declares a test, for a search on a host: it can be compiled, its primary class is a processor,
and the first declaration of the class names a marker that is an annotation type, and a target. -/
structure DeclaredTest (d : Discovery) (b : Workbench) (h : Host) (file : Location) where
  unit : String
  source : String
  artifacts : ArtifactSet
  /-- The host after the compilation. -/
  left : Host
  primary : LoadedClass
  annotation : AnnotationContent
  marker : String
  markerClass : LoadedClass
  target : Target
  named : UnitName.ofNames? file "java" = some unit
  readable : h.disk.readText? (d.scanRoot.joinAll file) = some source
  compiled : (b.compile unit (some source) none).outcome h = (.ok (some artifacts), left)
  /-- What has been loaded for other files is still there. -/
  sound : d.classPath.Sound left.disk d.definitions
  loads : (d.loaderOf artifacts).ask left.disk unit = .ok primary
  implements : (d.loaderOf artifacts).Implements left.disk primary Platform.processorInterface
  declares : primary.annotationOf? Declaration.descriptor = some annotation
  marks : annotation.Marks marker
  loadsMarker : (d.loaderOf artifacts).ask left.disk marker = .ok markerClass
  isAnnotationType : markerClass.isAnnotationType = true
  targets : annotation.Targets target

/-! ### Looking at a file -/

/-- What is expected in a file is its lines, with one kind of line end between them. -/
theorem expectedText_file {disk : Disk} {scanRoot path : Path} {text : String}
    (read : disk.readText? (scanRoot.join path) = some text) :
    expectedText disk scanRoot (.file path) = .ok (some ("\n".intercalate (Text.lines text))) := by
  unfold expectedText
  simp only [read]

/-- What cannot be loaded is the unit's fault. -/
theorem loading_bind {α β : Type} (unit : String) (step : LoadStep α) (k : α → InspectStep β) (s : Definitions) :
    (loading unit step >>= k) s = match step.outcome s with
      | (.ok a, s') => k a s'
      | (.error fault, s') => .error (.load unit fault) s' := by
  show EStateM.bind _ _ _ = _
  unfold EStateM.bind loading LoadStep.outcome EStateM.run
  cases step s <;> rfl

/-- Going on with what has been loaded. -/
theorem loading_bind_eq_ok {α β : Type} {unit : String} {step : LoadStep α} {k : α → InspectStep β} {r : β}
    {s s'' : Definitions} : (loading unit step >>= k) s = .ok r s'' ↔
      ∃ a s', step.outcome s = (.ok a, s') ∧ k a s' = .ok r s'' := by
  rw [loading_bind]
  obtain ⟨_ | a, s'⟩ := step.outcome s <;> simp

/-- What cannot be loaded ends the step, whatever would have come next. -/
theorem loading_bind_of_error {α β : Type} {unit : String} {step : LoadStep α} {fault : LoadError}
    {s s' : Definitions} (failed : step.outcome s = (.error fault, s')) (k : α → InspectStep β) :
    (loading unit step >>= k) s = .error (.load unit fault) s' := by
  rw [loading_bind, failed]

/-- A test is declared exactly if each of the steps that look for it finds what it looks for. -/
theorem declared_eq_some {disk : Disk} {loader : ClassLoader} {unit : String} {content : LoadedClass}
    {declaration : Declaration} {s s'' : Definitions} :
    declared disk loader unit content s = .ok (some declaration) s'' ↔
      ∃ walked annotation marker,
        (loader.implements disk content Platform.processorInterface).outcome s = (.ok true, walked) ∧
        content.annotationOf? Declaration.descriptor = some annotation ∧
        Declaration.ofContent annotation = .ok declaration ∧
        (loader.load disk declaration.marker).outcome walked = (.ok marker, s'') ∧
        marker.content.isAnnotationType = true := by
  rw [declared, loading_bind_eq_ok]
  constructor
  · rintro ⟨isProcessor, walked, implements, rest⟩
    cases isProcessor with
    | false => cases rest
    | true =>
      simp only [Bool.not_true, Bool.false_eq_true, if_false] at rest
      cases declares : content.annotationOf? Declaration.descriptor with
      | none =>
        rw [declares] at rest
        cases rest
      | some annotation =>
        simp only [declares] at rest
        cases told : Declaration.ofContent annotation with
        | error reason =>
          rw [told] at rest
          cases rest
        | ok declaration' =>
          simp only [told] at rest
          obtain ⟨marker, later, loads, rest⟩ := loading_bind_eq_ok.mp rest
          cases isAnnotationType : marker.content.isAnnotationType with
          | false =>
            rw [isAnnotationType] at rest
            cases rest
          | true =>
            rw [isAnnotationType] at rest
            cases rest
            exact ⟨walked, annotation, marker, implements, rfl, told, loads, isAnnotationType⟩
  · rintro ⟨walked, annotation, marker, implements, declares, told, loads, isAnnotationType⟩
    refine ⟨true, walked, implements, ?_⟩
    simp only [Bool.not_true, Bool.false_eq_true, if_false, declares, told]
    exact loading_bind_eq_ok.mpr ⟨marker, s'', loads, by rw [if_pos isAnnotationType]; rfl⟩

/-- **What a unit declares**, if the interface of processors is one: its class implements that interface, and all its
supertypes can be loaded, its first declaration can be read, and the marker is an annotation type. -/
theorem inspect_eq_some {disk : Disk} {l : ClassLoader} {unit : String} {declaration : Declaration} {s : Definitions}
    (sound : l.Sound disk s) (isInterface : Supertypes.IsInterface (l.ask disk) Platform.processorInterface) :
    (∃ later, inspect disk l unit s = .ok (some declaration) later) ↔
      ∃ primary annotation markerClass, l.ask disk unit = .ok primary ∧
        l.Implements disk primary Platform.processorInterface ∧ l.LoadsSupertypes disk primary ∧
        primary.annotationOf? Declaration.descriptor = some annotation ∧
        Declaration.ofContent annotation = .ok declaration ∧
        l.ask disk declaration.marker = .ok markerClass ∧ markerClass.isAnnotationType = true := by
  simp only [inspect, loading_bind_eq_ok, declared_eq_some]
  constructor
  · rintro ⟨later, primary, loaded, loads, walked, annotation, marker, implements, declares, told, loadsMarker,
      isAnnotationType⟩
    obtain ⟨asked, sound⟩ := ClassLoader.ask_of_load sound loads
    obtain ⟨given, known, sound⟩ := ClassLoader.implements_of_outcome sound (ClassLoader.length_direct_le_of_ask asked)
      isInterface implements
    exact ⟨_, annotation, _, asked, given, known, declares, told, (ClassLoader.ask_of_load sound loadsMarker).1,
      isAnnotationType⟩
  · rintro ⟨_, annotation, _, asked, given, known, declares, told, askedMarker, isAnnotationType⟩
    obtain ⟨primary, loaded, loads, rfl, sound⟩ := ClassLoader.exists_load_of_ask sound asked
    obtain ⟨walked, implements, sound⟩ := given.exists_outcome known sound (ClassLoader.length_direct_le_of_ask asked)
    obtain ⟨marker, later, loadsMarker, rfl, sound⟩ := ClassLoader.exists_load_of_ask sound askedMarker
    exact ⟨later, primary, loaded, loads, walked, annotation, marker, implements, declares, told, loadsMarker,
      isAnnotationType⟩

/-- **A unit whose class has a supertype that cannot be loaded** is at fault, whatever else it is. -/
theorem inspect_of_unknown {disk : Disk} {l : ClassLoader} {unit : String} {s : Definitions} {primary : LoadedClass}
    (sound : l.Sound disk s) (asked : l.ask disk unit = .ok primary) (unknown : ¬ l.LoadsSupertypes disk primary) :
    ∃ name fault later, Supertypes.Reaches (l.ask disk) primary name ∧ l.ask disk name = .error fault ∧
      inspect disk l unit s = .error (.load unit fault) later := by
  obtain ⟨definition, loaded, loads, rfl, sound⟩ := ClassLoader.exists_load_of_ask sound asked
  obtain ⟨name, fault, later, reaches, failed, walked⟩ := ClassLoader.exists_outcome_of_unknown unknown sound
    (ClassLoader.length_direct_le_of_ask asked) Platform.processorInterface
  refine ⟨name, fault, later, reaches, failed, ?_⟩
  rw [inspect, loading_bind, loads]
  exact loading_bind_of_error walked _

namespace DeclaredTest

variable (t : DeclaredTest d b h file)

/-- All supertypes of the primary class can be loaded. -/
def LoadsSupertypes : Prop := (d.loaderOf t.artifacts).LoadsSupertypes t.left.disk t.primary

/-- What is declared. -/
def declaration : Declaration := ⟨t.marker, t.target, Declaration.expectedOf t.annotation⟩

/-- The case that the file gives, with the expected source if there is one. -/
def caseWith (expected : Option String) : TestCase := ⟨t.unit, planOf t.unit t.artifacts t.declaration expected⟩

/-- What the search has in mind when it looks at the file: what has been loaded for other files. -/
theorem sound_loaderOf : (d.loaderOf t.artifacts).Sound t.left.disk d.definitions := t.sound _

/-- A file that declares a test is found to declare it, if all supertypes of its class can be loaded. -/
theorem exists_inspect (known : t.LoadsSupertypes) : ∃ later,
    inspect t.left.disk (d.loaderOf t.artifacts) t.unit d.definitions = .ok (some t.declaration) later ∧
      (d.loaderOf t.artifacts).Sound t.left.disk later := by
  have told : Declaration.ofContent t.annotation = .ok t.declaration :=
    Declaration.ofContent_eq_ok.mpr ⟨t.marks, t.targets, rfl⟩
  obtain ⟨later, inspected⟩ := (inspect_eq_some t.sound_loaderOf t.implements.isInterface).mpr ⟨t.primary,
    t.annotation, t.markerClass, t.loads, t.implements, known, t.declares, told, t.loadsMarker, t.isAnnotationType⟩
  obtain ⟨_, gives⟩ := inspect_stateless t.left.disk (d.loaderOf t.artifacts) t.unit
  have kept := gives d.definitions t.sound_loaderOf
  rw [inspected] at kept
  exact ⟨later, inspected, kept.2⟩

/-- What comes of the file is what is found out about its classes. -/
theorem examine_eq : (d.examine b file).outcome h = (d.judge t.left.disk t.unit t.artifacts, t.left) := by
  have compiled : (HostStep.adapt DiscoveryError.compile (b.compile t.unit (some t.source) none)).outcome h =
      (.ok (some t.artifacts), t.left) := by rw [HostStep.outcome_adapt, t.compiled]; rfl
  rw [examine_outcome t.named, t.readable]
  simp only [examineUnit, HostStep.outcome_bind, compiled]
  exact HostStep.outcome_ofExcept _ _

/-- **Looking at a file that declares a test** gives its case, if all supertypes of its class can be loaded, and what is
expected can be found out. -/
theorem exists_examine (known : t.LoadsSupertypes) {expected : Option String}
    (text : expectedText t.left.disk d.scanRoot t.declaration.expected = .ok expected) :
    ∃ definitions, (d.examine b file).outcome h = (.ok (some (t.caseWith expected), definitions), t.left) ∧
      d.classPath.Sound t.left.disk definitions := by
  obtain ⟨later, inspected, sound⟩ := t.exists_inspect known
  refine ⟨later.withoutIsolated, ?_, fun _ => sound.withoutIsolated rfl⟩
  rw [t.examine_eq, judge, ← loaderOf, inspected]
  simp only [text]
  rfl

/-- If a supertype of its class cannot be loaded, that is the fault of the file. -/
theorem exists_examine_of_unknown (unknown : ¬ t.LoadsSupertypes) : ∃ name fault,
    Supertypes.Reaches ((d.loaderOf t.artifacts).ask t.left.disk) t.primary name ∧
      (d.loaderOf t.artifacts).ask t.left.disk name = .error fault ∧
      (d.examine b file).outcome h = (.error (.load t.unit fault), t.left) := by
  obtain ⟨name, fault, later, reaches, failed, inspected⟩ := inspect_of_unknown t.sound_loaderOf t.loads unknown
  refine ⟨name, fault, reaches, failed, ?_⟩
  rw [t.examine_eq, judge, ← loaderOf, inspected]

end DeclaredTest

/-- Without a class path, the disk makes no difference to what is loaded. -/
theorem inspect_noClassPath (table : List (String × Bytes)) (disk disk' : Disk) :
    inspect disk ⟨table, .classPath []⟩ = inspect disk' ⟨table, .classPath []⟩ := rfl

/-- Without a class path, the platform is asked for what is not in the table. -/
theorem ask_noClassPath {table : List (String × Bytes)} {name : String} (disk : Disk)
    (unowned : (⟨table, .classPath []⟩ : ClassLoader).bytesOf? name = none) :
    ClassLoader.ask ⟨table, .classPath []⟩ disk name = Platform.ask name := by
  have asked : ClassLoader.ask ⟨table, .classPath []⟩ disk name = ClassPath.ask [] disk name := by
    rw [ClassLoader.ask, ClassLoader.load_of_unowned unowned]
    rfl
  rw [asked]
  cases reserved : ClassPath.isReserved name with
  | true => exact ClassPath.ask_of_reserved reserved
  | false => exact ClassPath.ask_of_free reserved

/-- Without a class path, the interface of processors is the platform's. -/
theorem isInterface_noClassPath {table : List (String × Bytes)} (disk : Disk)
    (unowned : (⟨table, .classPath []⟩ : ClassLoader).bytesOf? Platform.processorInterface = none) :
    Supertypes.IsInterface (ClassLoader.ask ⟨table, .classPath []⟩ disk) Platform.processorInterface := by
  rw [Supertypes.IsInterface, ask_noClassPath disk unowned]
  exact ⟨_, Platform.ask_eq_ok.mpr rfl, by decide⟩

/-- The class that most processors extend. -/
def processorBase : String := "javax.annotation.processing.AbstractProcessor"

/-- Without a class path, a class that extends it is one of a processor. -/
theorem implements_noClassPath {table : List (String × Bytes)} {c : LoadedClass} (disk : Disk)
    (base_extended : c.superName = some processorBase) (other : c.name ∉ [processorBase, Platform.processorInterface])
    (unowned : ∀ name ∈ [processorBase, Platform.processorInterface],
      (⟨table, .classPath []⟩ : ClassLoader).bytesOf? name = none) :
    ClassLoader.Implements ⟨table, .classPath []⟩ disk c Platform.processorInterface := by
  rw [List.forall_mem_cons, List.forall_mem_singleton] at unowned
  simp only [List.mem_cons, List.not_mem_nil, or_false, not_or] at other
  have base : Platform.ask processorBase = .ok (Platform.classOf processorBase .isPublic Platform.rootClass
    [Platform.processorInterface]) := rfl
  have above : Supertypes.Above (ClassLoader.ask ⟨table, .classPath []⟩ disk) c _ :=
    .super .self (.inl base_extended) (Ne.symm other.1) ((ask_noClassPath disk unowned.1).trans base)
  exact ⟨⟨Ne.symm other.2, _, above, .inr (List.mem_singleton.mpr rfl)⟩, isInterface_noClassPath disk unowned.2⟩

/-- A file declares a test, and all supertypes of its class can be loaded, if a test is found in what has been made of
it, in a new search without a class path. -/
theorem exists_declaredTest {scanRoot : Path} {pending : List Location} {unit source : String}
    {artifacts : ArtifactSet} {declaration : Declaration} (named : UnitName.ofNames? file "java" = some unit)
    (readable : h.disk.readText? (scanRoot.joinAll file) = some source)
    (made : ((b.compile unit (some source) none).outcome h).1 = .ok (some artifacts))
    (unowned : (⟨artifacts.classes, .classPath []⟩ : ClassLoader).bytesOf? Platform.processorInterface = none)
    (found : (match inspect h.disk ⟨artifacts.classes, .classPath []⟩ unit {} with
      | .ok declared _ => declared
      | .error .. => none) = some declaration) :
    ∃ t : DeclaredTest ⟨scanRoot, [], {}, pending⟩ b h file, t.unit = unit ∧ t.artifacts = artifacts ∧
      t.declaration = declaration ∧ t.LoadsSupertypes := by
  obtain ⟨left, compiled⟩ := HostStep.exists_outcome made
  have isInterface := isInterface_noClassPath left.disk unowned
  rw [inspect_noClassPath _ _ left.disk] at found
  have inspected : ∃ later,
      inspect left.disk ⟨artifacts.classes, .classPath []⟩ unit {} = .ok (some declaration) later := by
    split at found
    next declared later inspected => exact ⟨later, found ▸ inspected⟩
    next => cases found
  have sound : ClassPath.Sound [] left.disk {} := fun table => ClassLoader.sound_empty _ _
  obtain ⟨primary, annotation, markerClass, loads, implements, known, declares, told, loadsMarker, isAnnotationType⟩ :=
    (inspect_eq_some (sound _) isInterface).mp inspected
  obtain ⟨marker, target, expected⟩ := declaration
  obtain ⟨marks, targets, rfl⟩ := Declaration.ofContent_eq_ok.mp told
  exact ⟨⟨unit, source, artifacts, left, primary, annotation, marker, markerClass, target, named, readable, compiled,
    sound, loads, implements, declares, marks, loadsMarker, isAnnotationType, targets⟩, rfl, rfl, rfl, known⟩

/-- A search whose next file is at fault hands out the fault, and looks at no other. -/
theorem nextOf_of_fault {ε : Type} {fault : DiscoveryError} {left : Host} {source : String}
    (readable : h.disk.readText? (d.scanRoot.joinAll file) = some source)
    (gives : (d.examine b file).outcome h = (.error fault, left)) (rest : List Location) :
    (nextOf (ε := ε) b d (file :: rest)).outcome h = (.ok (some (.error fault), { d with pending := [] }), left) := by
  unfold nextOf
  rw [HostStep.outcome_attempt_bind, examineAt_outcome, Disk.isFile_of_readText? readable, if_pos rfl, gives]
  rfl

/-- A search whose next file gives a case hands it out, and goes on with the others. -/
theorem nextOf_of_case {ε : Type} {case : TestCase} {definitions : Definitions} {left : Host} {source : String}
    (readable : h.disk.readText? (d.scanRoot.joinAll file) = some source)
    (gives : (d.examine b file).outcome h = (.ok (some case, definitions), left)) (rest : List Location) :
    (nextOf (ε := ε) b d (file :: rest)).outcome h =
      (.ok (some (.ok case), { d with definitions, pending := rest }), left) := by
  unfold nextOf
  rw [HostStep.outcome_attempt_bind, examineAt_outcome, Disk.isFile_of_readText? readable, if_pos rfl, gives]
  rfl

/-- Only where nothing is expected is there no text. -/
theorem expectedText_eq_none {disk : Disk} {scanRoot : Path} {expected : ExpectedSource} :
    expectedText disk scanRoot expected = .ok none ↔ expected = .missing := by
  refine ⟨fun given => ?_, fun same => by rw [same]; rfl⟩
  cases expected with
  | missing => rfl
  | inline lines => cases given
  | file path =>
    unfold expectedText at given
    simp only at given
    split at given <;> cases given

/-- What is expected can be found out if it is in a file that can be read, or in lines, or nowhere. -/
theorem DeclaredTest.exists_expected (t : DeclaredTest d b h file) (found : ∀ name, t.annotation.NamesFile name →
      ∃ text, t.left.disk.readText? (d.scanRoot.join ⟨name⟩) = some text) :
    ∃ expected, expectedText t.left.disk d.scanRoot t.declaration.expected = .ok expected := by
  rw [declaration]
  cases given : Declaration.expectedOf t.annotation with
  | missing => exact ⟨none, rfl⟩
  | inline lines => exact ⟨some ("\n".intercalate lines), rfl⟩
  | file path =>
    obtain ⟨text, read⟩ := found path.text (Declaration.expectedOf_eq_file.mp given)
    exact ⟨some ("\n".intercalate (Text.lines text)), expectedText_file read⟩

/-- The plan of the case says whether anything is expected. -/
theorem DeclaredTest.plan_eq_missingExpected (t : DeclaredTest d b h file) {expected : Option String}
    (text : expectedText t.left.disk d.scanRoot t.declaration.expected = .ok expected) :
    (t.caseWith expected).plan = .missingExpected ↔ t.annotation.LacksExpected := by
  calc (t.caseWith expected).plan = .missingExpected
    _ ↔ expected = none := by cases expected <;> simp [caseWith, planOf]
    _ ↔ expectedText t.left.disk d.scanRoot t.declaration.expected = .ok none := by rw [text, Except.ok.injEq]
    _ ↔ t.declaration.expected = .missing := expectedText_eq_none
    _ ↔ t.annotation.LacksExpected := Declaration.expectedOf_eq_missing

end Discovery

/-! ## Running a case -/

namespace TestCase

variable {c : TestCase} {b : Workbench} {h : Host}

/-- A case without an expected source fails at once. -/
theorem run_of_missingExpected (plan : c.plan = .missingExpected) :
    (c.run b).outcome h = (.error .missingExpected, h) := by
  rw [run, plan]
  rfl

/-- A compilation does not fail for want of an expected source. -/
theorem compileSide_ne_missingExpected {h' : Host} {side : Side} {source : String} {processor : Option Processor} :
    (compileSide b side source processor).outcome h ≠ (.error .missingExpected, h') := by
  rw [compileSide_outcome]
  unfold classOf
  split
  · nofun
  · nofun
  · split <;> nofun

/-- **A case fails for want of an expected source** exactly if that is its plan. -/
theorem run_eq_missingExpected : ((c.run b).outcome h).1 = .error .missingExpected ↔ c.plan = .missingExpected := by
  refine ⟨fun failed => ?_, fun plan => by rw [run_of_missingExpected plan]⟩
  obtain ⟨h', failed⟩ := HostStep.exists_outcome failed
  cases plan : c.plan with
  | missingExpected => rfl
  | compare processor stub expected =>
    rw [run, plan] at failed
    rcases HostStep.outcome_bind_eq_error.mp failed with failed | ⟨_, _, _, failed⟩
    · exact absurd failed compileSide_ne_missingExpected
    rcases HostStep.outcome_bind_eq_error.mp failed with failed | ⟨_, _, _, failed⟩
    · exact absurd failed compileSide_ne_missingExpected
    rw [HostStep.outcome_ofExcept] at failed
    rcases compareClasses_eq_error (Prod.mk.inj failed).1 with ⟨_, _, same⟩ | ⟨_, _, _, _, _, same⟩ <;> cases same

end TestCase

namespace Discovery.DeclaredTest

variable {d : Discovery} {b : Workbench} {h : Host} {file : Location}

/-- **A declared test gives a case**, if all supertypes of its class can be loaded, and the file that it names can be
read, when it names one. The case fails for want of an expected source, and leaves the host as it is then, exactly if
the declaration has neither a file nor lines, whatever else is in it. A supertype that cannot be loaded ends the
search. -/
theorem gives_case (t : DeclaredTest d b h file) (found : ∀ name, t.annotation.NamesFile name →
      ∃ text, t.left.disk.readText? (d.scanRoot.join ⟨name⟩) = some text) :
    (t.LoadsSupertypes → ∃ (case : TestCase) (definitions : Definitions), case.name = t.unit ∧
      d.classPath.Sound t.left.disk definitions ∧
      (d.examine b file).outcome h = (.ok (some case, definitions), t.left) ∧
      (∀ {ε : Type} (rest : List Location), (nextOf (ε := ε) b d (file :: rest)).outcome h =
        (.ok (some (.ok case), { d with definitions, pending := rest }), t.left)) ∧
      ∀ (bench : Workbench) (host : Host),
        ((case.run bench).outcome host = (.error .missingExpected, host) ↔ t.annotation.LacksExpected) ∧
        (((case.run bench).outcome host).1 = .error .missingExpected ↔ t.annotation.LacksExpected)) ∧
    (¬ t.LoadsSupertypes → ∃ name fault,
      Supertypes.Reaches ((d.loaderOf t.artifacts).ask t.left.disk) t.primary name ∧
      (d.loaderOf t.artifacts).ask t.left.disk name = .error fault ∧
      (d.examine b file).outcome h = (.error (.load t.unit fault), t.left) ∧
      ∀ {ε : Type} (rest : List Location), (nextOf (ε := ε) b d (file :: rest)).outcome h =
        (.ok (some (.error (.load t.unit fault)), { d with pending := [] }), t.left)) := by
  constructor
  · intro known
    obtain ⟨expected, text⟩ := t.exists_expected found
    obtain ⟨definitions, gives, sound⟩ := t.exists_examine known text
    refine ⟨t.caseWith expected, definitions, rfl, sound, gives, nextOf_of_case t.readable gives, fun bench host => ?_⟩
    rw [← t.plan_eq_missingExpected text]
    refine ⟨⟨fun failed => ?_, TestCase.run_of_missingExpected⟩, TestCase.run_eq_missingExpected⟩
    exact TestCase.run_eq_missingExpected.mp (congrArg Prod.fst failed)
  · intro unknown
    obtain ⟨name, fault, reaches, failed, gives⟩ := t.exists_examine_of_unknown unknown
    exact ⟨name, fault, reaches, failed, gives, nextOf_of_fault t.readable gives⟩

open Discovery (oneClass declaringClass processorClass textConstant answerByName namesHost)

/-- A bench without a class path. -/
def bareBench (answer : RequestContent → CompilerAnswer) : Workbench where
  sourceRoot := ⟨"/src"⟩
  classPath := []
  compiler := ContentCompiler.ofAnswers answer

/-- A search with that bench. -/
def bareSearch : Discovery := ⟨⟨"/src"⟩, [], {}, []⟩

/-- On a host with two sources, the one that declares a test without an expected source gives a case that fails at
once. -/
theorem gives_case_twoFiles :
    ∃ t : DeclaredTest bareSearch (bareBench answerByName) (namesHost ["C", "D"]) ["D.java"],
      (∀ name, t.annotation.NamesFile name →
        ∃ text, t.left.disk.readText? (bareSearch.scanRoot.join ⟨name⟩) = some text) ∧
      t.LoadsSupertypes ∧ t.annotation.LacksExpected ∧ ∃ case definitions, case.name = "D" ∧
        (examine bareSearch (bareBench answerByName) ["D.java"]).outcome (namesHost ["C", "D"]) =
          (.ok (some case, definitions), t.left) ∧
        (case.run (bareBench answerByName)).outcome (namesHost ["C", "D"]) =
          (.error .missingExpected, namesHost ["C", "D"]) := by
  have readable : (namesHost ["C", "D"]).disk.readText? (bareSearch.scanRoot.joinAll ["D.java"]) = some "D" := by
    decide +kernel
  obtain ⟨t, unit, _, declaration, known⟩ :
      ∃ t : DeclaredTest bareSearch (bareBench answerByName) (namesHost ["C", "D"]) ["D.java"],
        t.unit = "D" ∧ t.artifacts = ⟨[("D", ⟨["D.class"], declaringClass "D"⟩)]⟩ ∧
        t.declaration = ⟨"java.lang.Deprecated", .type, .missing⟩ ∧ t.LoadsSupertypes :=
    exists_declaredTest rfl readable (by decide +kernel) (by decide +kernel) (by decide +kernel)
  have lacks := Declaration.expectedOf_eq_missing.mp (congrArg Declaration.expected declaration)
  have found : ∀ name, t.annotation.NamesFile name →
      ∃ text, t.left.disk.readText? (bareSearch.scanRoot.join ⟨name⟩) = some text :=
    fun name named => absurd named (lacks.file name)
  obtain ⟨case, definitions, name, _, gives, _, runs⟩ := (t.gives_case found).1 known
  exact ⟨t, found, known, lacks, case, definitions, name.trans unit, gives, ((runs _ _).1).mpr lacks⟩

/-! ### A processor that is an error handler -/

/-- The class file of a processor that is an error handler as well, with a declaration that has no expected source. -/
def handlerClass : Bytes :=
  processorClass "A" "javax/annotation/processing/AbstractProcessor"
    [textConstant "org/xml/sax/ErrorHandler", [7, 0, 12]] [13] []

/-- A compiler that makes this class, whatever the source. -/
def makeHandler (_ : RequestContent) : CompilerAnswer := oneClass "A.class" handlerClass rfl

/-- The loader for what is made. -/
def handlerLoader : ClassLoader := ⟨[("A", handlerClass)], .classPath []⟩

/-- What a class names as its supertypes, and the test that it declares. -/
def portrait (c : LoadedClass) : Option (String × Option String × List String × Declaration) := do
  let a ← c.annotationOf? Declaration.descriptor
  match Declaration.ofContent a with
  | .ok declaration => return (c.name, c.superName, c.interfaces, declaration)
  | .error _ => none

/-- The class is one of a processor, and declares a test without an expected source. -/
theorem ask_handler (disk : Disk) : ∃ c a, handlerLoader.ask disk "A" = .ok c ∧ c.name = "A" ∧
    c.superName = some processorBase ∧
    c.interfaces = ["org.xml.sax.ErrorHandler"] ∧ c.annotationOf? Declaration.descriptor = some a ∧
    Declaration.ofContent a = .ok ⟨"java.lang.Deprecated", .type, .missing⟩ := by
  have seen : (match handlerLoader.ask (namesHost []).disk "A" with
      | .ok c => portrait c
      | .error _ => none) = some ("A", some processorBase,
        ["org.xml.sax.ErrorHandler"], ⟨"java.lang.Deprecated", .type, .missing⟩) := by decide +kernel
  change (match handlerLoader.ask disk "A" with | .ok c => portrait c | .error _ => none) = _ at seen
  split at seen
  next c asked =>
    obtain ⟨a, declares, seen⟩ := Option.bind_eq_some_iff.mp seen
    split at seen
    next declaration told =>
      simp only [Option.pure_def, Option.some.injEq, Prod.mk.injEq] at seen
      obtain ⟨name, super, interfaces, rfl⟩ := seen
      exact ⟨c, a, asked, name, super, interfaces, declares, told⟩
    next => cases seen
  next => cases seen

/-- **A supertype that is not known ends the search.** The platform does not have the interface of error handlers, so
a file gives no case that declares a test, without an expected source, for a processor that is one. -/
theorem gives_case_errorHandler :
    ∃ t : DeclaredTest bareSearch (bareBench makeHandler) (namesHost ["A"]) ["A.java"],
      t.annotation.LacksExpected ∧ ¬ t.LoadsSupertypes ∧
        (examine bareSearch (bareBench makeHandler) ["A.java"]).outcome (namesHost ["A"]) =
          (.error (.load "A" (.notFound "org.xml.sax.ErrorHandler")), t.left) := by
  have made : (((bareBench makeHandler).compile "A" (some "A") none).outcome (namesHost ["A"])).1 =
      .ok (some ⟨[("A", ⟨["A.class"], handlerClass⟩)]⟩) := by decide +kernel
  obtain ⟨left, compiled⟩ := HostStep.exists_outcome made
  obtain ⟨c, a, asked, name, super, interfaces, declares, told⟩ := ask_handler left.disk
  obtain ⟨marks, targets, expected⟩ := Declaration.ofContent_eq_ok.mp told
  let resolve := handlerLoader.ask left.disk
  have implements : handlerLoader.Implements left.disk c Platform.processorInterface :=
    implements_noClassPath left.disk super (by rw [name]; decide) (by decide)
  have marker : resolve "java.lang.Deprecated" = .ok _ := ask_noClassPath left.disk rfl
  let t : DeclaredTest bareSearch (bareBench makeHandler) (namesHost ["A"]) ["A.java"] :=
    ⟨"A", "A", ⟨[("A", ⟨["A.class"], handlerClass⟩)]⟩, left, c, a, "java.lang.Deprecated", _, .type, rfl,
      by decide +kernel, compiled, fun table => ClassLoader.sound_empty _ _, asked, implements, declares, marks,
      marker, by decide, targets⟩
  have unknown : ¬ t.LoadsSupertypes := by
    intro known
    have handler : Supertypes.Reaches resolve c "org.xml.sax.ErrorHandler" :=
      ⟨by rw [name]; decide, c, .self, .inr (by rw [interfaces]; exact List.mem_singleton.mpr rfl)⟩
    obtain ⟨k, found⟩ := known _ handler
    cases (ask_noClassPath left.disk rfl).symm.trans found
  have fault : ((examine bareSearch (bareBench makeHandler) ["A.java"]).outcome (namesHost ["A"])).1.map (fun _ => ()) =
      .error (.load "A" (.notFound "org.xml.sax.ErrorHandler")) := by decide +kernel
  refine ⟨t, Declaration.expectedOf_eq_missing.mp expected.symm, unknown, ?_⟩
  obtain ⟨name, fault', reaches, failed, gives⟩ := t.exists_examine_of_unknown unknown
  rw [gives] at fault ⊢
  cases fault
  rfl

end Discovery.DeclaredTest

end ProcessorBench
