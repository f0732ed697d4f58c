import ProcessorBench.Loading.ClassLoader
import ProcessorBench.Suite.Declaration
import ProcessorBench.Suite.TestCase

/-!
# Finding tests

`Discovery.start` lists the source files of a tree, in the order of their names in each directory, and
`Discovery.next` compiles one after the other until one of them is a declared test. The first fault ends the
search.
-/

namespace ProcessorBench

/-- A search for tests in a source tree. -/
structure Discovery where
  scanRoot : Path
  /-- Where classes are looked for that the compilation of a file does not make. -/
  classPath : ClassPath
  /-- The classes of the class path and of the platform that have been needed so far. -/
  definitions : Definitions := {}
  /-- The source files that have not been looked at, by their places below the root. -/
  pending : List Location

namespace Discovery

/-- Whether a place is one of a source file, by the extension of its name. -/
def isSource (location : Location) : Bool :=
  location.getLast?.bind Path.extensionOf? = some "java"

/-- A search that starts on a disk. -/
def startOn (bench : Workbench) (scanRoot : Path) (disk : Disk) : Except DiscoveryError Discovery :=
  match disk.lookup scanRoot with
  | .ok (.dir entries) => do
    let classPath ← (ClassPath.openAll disk bench.classPath).mapError .classPath
    let sources := ((FileTree.dir entries).files.map (·.1)).filter isSource
    return { scanRoot, classPath, pending := sources }
  | _ => .error (.invalidScanRoot scanRoot)

/-- Start a search. -/
def start (bench : Workbench) (scanRoot : Path) : HostStep DiscoveryError Discovery := do
  HostStep.ofExcept (startOn bench scanRoot (← HostStep.disk))

/-- A step in finding out whether a unit is a test. -/
abbrev InspectStep := EStateM DiscoveryError Definitions

/-- Load something for a unit. -/
def loading {α : Type} (unit : String) (step : LoadStep α) : InspectStep α := fun definitions =>
  match step definitions with
  | .ok a definitions => .ok a definitions
  | .error e definitions => .error (.load unit e) definitions

/-- What a class declares: a test, if it is a processor with a declaration whose marker is an annotation
type. -/
def declared (disk : Disk) (loader : ClassLoader) (unit : String) (content : LoadedClass) :
    InspectStep (Option Declaration) := do
  let isProcessor ← loading unit (loader.implements disk content Platform.processorInterface)
  if !isProcessor then return none
  match content.annotationOf? Declaration.descriptor with
  | none => return none
  | some annotation =>
    match Declaration.ofContent annotation with
    | .error reason => throw (.unsupported unit reason)
    | .ok declaration =>
      let marker ← loading unit (loader.load disk declaration.marker)
      if marker.content.isAnnotationType then return some declaration
      else throw (.unsupported unit .markerIsOrdinaryType)

/-- What the class of a unit declares. -/
def inspect (disk : Disk) (loader : ClassLoader) (unit : String) :
    InspectStep (Option Declaration) := do
  let definition ← loading unit (loader.load disk unit)
  declared disk loader unit definition.content

/-- The expected source of a declaration. Lines in a file may end in one way or the other, and the last one
need not end. -/
def expectedText (disk : Disk) (scanRoot : Path) :
    ExpectedSource → Except DiscoveryError (Option String)
  | .missing => .ok none
  | .inline lines => .ok (some ("\n".intercalate lines))
  | .file file =>
    let path := scanRoot.join file
    match disk.readText? path with
    | some text => .ok (some ("\n".intercalate (Text.lines text)))
    | none => .error (.io path)

/-- What to do for a declaration. -/
def planOf (unit : String) (artifacts : ArtifactSet) (declaration : Declaration) :
    Option String → CasePlan
  | none => .missingExpected
  | some expected =>
    .compare ⟨unit, artifacts⟩ (declaration.target.stub declaration.marker) expected

/-- Find out what case a unit declares, from the artifacts of its compilation. Classes of the unit that have been
needed are given up with its loader. -/
def judge (d : Discovery) (disk : Disk) (unit : String) (artifacts : ArtifactSet) :
    Except DiscoveryError (Option TestCase × Definitions) :=
  match inspect disk ⟨artifacts.classes, .classPath d.classPath⟩ unit d.definitions with
  | .error e _ => .error e
  | .ok none definitions => .ok (none, definitions.withoutIsolated)
  | .ok (some declaration) definitions => do
    let expected ← expectedText disk d.scanRoot declaration.expected
    return (some ⟨unit, planOf unit artifacts declaration expected⟩, definitions.withoutIsolated)

/-- Compile a unit from its source, and find out what case it declares. -/
def examineUnit (d : Discovery) (bench : Workbench) (unit source : String) :
    HostStep DiscoveryError (Option TestCase × Definitions) := do
  match ← HostStep.adapt .compile (bench.compile unit (some source) none) with
  | none => throw (.compiler unit)
  | some artifacts => HostStep.ofExcept (d.judge (← HostStep.disk) unit artifacts)

/-- Look at one source file. The result is the case that it declares, and the classes that have been
needed so far. -/
def examine (d : Discovery) (bench : Workbench) (location : Location) :
    HostStep DiscoveryError (Option TestCase × Definitions) := do
  match UnitName.ofNames? location "java" with
  | none => throw (.compile (.invalidUnitName (Path.ofNames location).text))
  | some unit =>
    let path := d.scanRoot.joinAll location
    match (← HostStep.disk).readText? path with
    | none => throw (.io path)
    | some source => d.examineUnit bench unit source

/-- Look at a place where a source file was when the search started. -/
def examineAt (d : Discovery) (bench : Workbench) (location : Location) :
    HostStep DiscoveryError (Option TestCase × Definitions) := do
  if (← HostStep.disk).isFile (d.scanRoot.joinAll location) then d.examine bench location
  else return (none, d.definitions)

/-- Look at source files until one declares a test, or until there is a fault. -/
def nextOf (bench : Workbench) {ε : Type} (d : Discovery) :
    List Location → HostStep ε (Option (Except DiscoveryError TestCase) × Discovery)
  | [] => return (none, { d with pending := [] })
  | location :: rest => do
    match ← HostStep.attempt (d.examineAt bench location) with
    | .error e => return (some (.error e), { d with pending := [] })
    | .ok (some case, definitions) => return (some (.ok case), { d with definitions, pending := rest })
    | .ok (none, definitions) => nextOf bench { d with definitions } rest

/-- Go on to the next test. -/
def next (d : Discovery) (bench : Workbench) {ε : Type} :
    HostStep ε (Option (Except DiscoveryError TestCase) × Discovery) :=
  nextOf bench d d.pending

/-- All tests that some source files declare. -/
def casesOf (bench : Workbench) (d : Discovery) : List Location → HostStep DiscoveryError (List TestCase)
  | [] => return []
  | location :: rest => do
    let (case, definitions) ← d.examineAt bench location
    return case.toList ++ (← casesOf bench { d with definitions } rest)

/-- All tests of a source tree, in the order in which they are found. -/
def cases (bench : Workbench) (scanRoot : Path) : HostStep DiscoveryError (List TestCase) := do
  let d ← start bench scanRoot
  casesOf bench d d.pending

end Discovery

end ProcessorBench
