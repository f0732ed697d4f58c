import ProcessorBench.Utility.Basic

/-!
# Finding programs

A program is a utility or a script, which names its interpreter in its first line: `#!/bin/sh`. A program
that is called by a plain name is looked for in the directories of the variable `PATH`.
-/

namespace ProcessorBench

/-- Why a program cannot be started. -/
inductive LaunchFault where
  /-- There is no such program, or no interpreter for it. -/
  | missing
  /-- The file must not be run. -/
  | denied
  | notDirectory
  /-- The file is no program. -/
  | noProgram
  /-- The name or an argument is none, or too long. -/
  | invalid
deriving DecidableEq, Repr

/-- What is started when a program is called. -/
structure Invocation where
  utility : Utility
  /-- The name by which the utility is called. -/
  name : String
  /-- The path at which it has been found. -/
  path : String
  arguments : List String

namespace Invocation

/-- What a fault in following a path means for a program. -/
def faultOf : FileFault → LaunchFault
  | .missing => .missing
  | .notDirectory => .notDirectory
  | .isDirectory | .notExecutable => .denied
  | .alreadyExists | .invalidPath | .tooLong => .invalid

/-- The interpreter of a script and the argument for it, from the first line of the script. -/
def interpreter? (content : Bytes) : Option (String × List String) := do
  let line := String.ofList ((Utf8.decodeLossy (content.take 255)).toList.takeWhile fun c =>
    c ≠ '\n' && c ≠ '\x00')
  let '#' :: '!' :: text := line.toList | none
  let isBlank (c : Char) : Bool := c = ' ' || c = '\t'
  let text := ((text.dropWhile isBlank).reverse.dropWhile isBlank).reverse
  let name := text.takeWhile (!isBlank ·)
  let argument := (text.drop name.length).dropWhile isBlank
  if name = [] then none
  else some (String.ofList name, if argument = [] then [] else [String.ofList argument])

/-- How many interpreters can be scripts themselves. -/
def scriptLimit : Nat := 5

/-- What is started for the file at a path that is called by a name. -/
def ofPath (disk : Disk) : Nat → String → String → List String → Except LaunchFault Invocation
  | 0, _, _, _ => .error .invalid
  | fuel + 1, name, path, arguments => do
    let location ← (disk.locate ⟨path⟩).mapError faultOf
    match disk.tree.at? location with
    | none => .error .missing
    | some (.dir _) => .error .denied
    | some (.file content executable) =>
      if !executable then .error .denied
      else
        match Utility.at? location with
        | some utility => .ok ⟨utility, name, path, arguments⟩
        | none =>
          match interpreter? content with
          | some (interpreter, options) =>
            ofPath disk fuel interpreter interpreter (options ++ path :: arguments)
          | none => .error .noProgram

/-- The directories to look for programs in if the environment names none. -/
def defaultSearch : String := "/bin:/usr/bin"

/-- Look for a program in directories. One that must not be run is passed over, and reported if there is no
other. -/
def search (disk : Disk) (program : String) (arguments : List String) :
    List String → LaunchFault → Except LaunchFault Invocation
  | [], fault => .error fault
  | directory :: rest, fault =>
    let path := if directory = "" then "./" ++ program else ((Path.mk directory).join ⟨program⟩).text
    match ofPath disk scriptLimit program path arguments with
    | .ok invocation => .ok invocation
    | .error .denied => search disk program arguments rest .denied
    | .error .missing => search disk program arguments rest (if fault = .denied then .denied else .missing)
    | .error .notDirectory =>
      search disk program arguments rest (if fault = .denied then .denied else .notDirectory)
    | .error other => .error other

/-- What is started for a program: the file at its path if it has a slash in it, and else the first one of
that name in the directories to look in. -/
def find (disk : Disk) (directories : Option String) (program : String) (arguments : List String) :
    Except LaunchFault Invocation :=
  if (program :: arguments).any (·.toList.contains '\x00') then .error .invalid
  else if program.toList.contains '/' then ofPath disk scriptLimit program program arguments
  else if program = "" then .error .missing
  else if program.utf8ByteSize > Disk.nameLimit then .error .invalid
  else search disk program arguments (Text.splitOn ':' (directories.getD defaultSearch)) .missing

end Invocation

end ProcessorBench
