import ProcessorBench.FileTree.Path

/-!
# Arguments of the command line

`diamond test DIRECTORY` runs the tests of a source tree. `Request.ofArguments` reads the arguments from left
to right: the first one that is wrong, or that asks for help, decides.
-/

namespace ProcessorBench

/-- What `diamond test` is told. -/
structure TestOptions where
  scanRoot : Path
  classPath : List Path
  javac : Option Path
  filter : Option String
  parallel : Bool
  verbose : Bool
  javacOptions : List String
deriving DecidableEq, Repr

/-- What the user asks for. -/
inductive Request where
  | help
  | version
  | test (options : TestOptions)
  /-- The arguments are wrong. -/
  | refused
deriving DecidableEq, Repr

namespace Arguments

/-- The options that have been read so far. -/
structure Draft where
  scanRoot : Option Path := none
  classPath : List Path := []
  javac : Option Path := none
  filter : Option String := none
  noParallel : Bool := false
  verbose : Bool := false
  javacOptions : List String := []

namespace Draft

/-- A path, which must not be empty. -/
def path? (text : String) : Option Path := if text = "" then none else some ⟨text⟩

/-- Take the place to look for tests. There is only one. -/
def operand? (d : Draft) (text : String) : Option Draft := do
  let scanRoot ← path? text
  if d.scanRoot.isSome then none else some { d with scanRoot }

/-- Turn on a flag, which may be given once. -/
def flag? (d : Draft) : String → Option Draft
  | "no-parallel" => if d.noParallel then none else some { d with noParallel := true }
  | "verbose" => if d.verbose then none else some { d with verbose := true }
  | _ => none

/-- The options that have a value. -/
def valued : List String := ["classpath", "javac", "filter", "javac-option"]

/-- Take the value of an option. Entries of the class path and options of the compiler may be given more
than once. -/
def value? (d : Draft) (name value : String) : Option Draft :=
  match name with
  | "classpath" => do
    let path ← path? value
    some { d with classPath := d.classPath ++ [path] }
  | "javac" => do
    let path ← path? value
    if d.javac.isSome then none else some { d with javac := path }
  | "filter" => if d.filter.isSome then none else some { d with filter := value }
  | "javac-option" => some { d with javacOptions := d.javacOptions ++ [value] }
  | _ => none

/-- What the user asks for with the options that have been read. -/
def request (d : Draft) : Request :=
  match d.scanRoot with
  | none => .refused
  | some scanRoot =>
    .test
      { scanRoot, classPath := d.classPath, javac := d.javac, filter := d.filter
        parallel := !d.noParallel, verbose := d.verbose, javacOptions := d.javacOptions }

end Draft

/-- What an argument looks like. -/
inductive Shape where
  /-- An option with a long name, and the value that is attached to it. -/
  | long (name : String) (value : Option String)
  /-- Options of one letter each. -/
  | letters (letters : List Char)
  /-- Two hyphens, after which there are no options. -/
  | separator
  | operand (text : String)
deriving DecidableEq

/-- What an argument looks like. -/
def shapeOf (argument : String) : Shape :=
  match argument.toList with
  | ['-', '-'] => .separator
  | '-' :: '-' :: text =>
    let name := text.takeWhile (· ≠ '=')
    let value := if name.length = text.length then none else some (String.ofList (text.drop (name.length + 1)))
    .long (String.ofList name) value
  | '-' :: c :: letters => .letters (c :: letters)
  | _ => .operand argument

/-- Whether an argument can be the value of an option in front of it. -/
def isValueFor (name argument : String) : Bool :=
  name = "javac-option" ||
    match shapeOf argument with
    | .operand _ => true
    | _ => false

/-- Read options of one letter each. The result is what they ask for instead of a test, or the options. -/
def readLetters (d : Draft) : List Char → Except Request Draft
  | [] => .ok d
  | 'h' :: _ => .error .help
  | 'v' :: rest =>
    match d.flag? "verbose" with
    | some d => readLetters d rest
    | none => .error .refused
  | _ :: _ => .error .refused

/-- Read the arguments of `diamond test`. -/
def readTest (d : Draft) (onlyOperands : Bool) : List String → Request
  | [] => d.request
  | argument :: rest =>
    let shape := if onlyOperands then .operand argument else shapeOf argument
    match shape with
    | .operand text =>
      match d.operand? text with
      | some d => readTest d onlyOperands rest
      | none => .refused
    | .separator => readTest d true rest
    | .letters letters =>
      match readLetters d letters with
      | .ok d => readTest d false rest
      | .error request => request
    | .long "help" none => .help
    | .long name (some value) =>
      match d.value? name value with
      | some d => readTest d false rest
      | none => .refused
    | .long name none =>
      if Draft.valued.contains name then
        match rest with
        | [] => .refused
        | value :: rest =>
          if isValueFor name value then
            match d.value? name value with
            | some d => readTest d false rest
            | none => .refused
          else .refused
      else
        match d.flag? name with
        | some d => readTest d false rest
        | none => .refused

end Arguments

/-- What some arguments ask for. -/
def Request.ofArguments : List String → Request
  | [] => .refused
  | first :: rest =>
    match Arguments.shapeOf first with
    | .long "help" none | .letters ('h' :: _) => .help
    | .long "version" none | .letters ('V' :: _) => .version
    | .operand "help" => if [[], ["test"], ["help"]].contains rest then .help else .refused
    | .operand "test" => Arguments.readTest {} false rest
    | _ => .refused

end ProcessorBench
