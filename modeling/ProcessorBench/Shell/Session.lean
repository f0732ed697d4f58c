import ProcessorBench.Process.Program
import ProcessorBench.Shell.Pattern
import ProcessorBench.Shell.Reader

/-!
# Sessions of the shell

What the shell knows while it runs a script: its arguments and variables, the functions that have been
defined, where its descriptors lead, and the machine it runs on.
-/

namespace ProcessorBench.Shell

/-- A variable. -/
structure Variable where
  value : String
  /-- Whether the programs that are called get it in their environment. -/
  exported : Bool := false

/-- The state of a running script. -/
structure Session where
  machine : Machine
  /-- The name by which the script was called. -/
  name : String
  arguments : List String
  bindings : List (String × Variable)
  functions : List (String × Command) := []
  /-- The variables that are local to the function that runs, as they were outside of it. -/
  locals : List (String × Option Variable) := []
  /-- The commands that are run when the script ends. -/
  lastWords : String := ""
  descriptors : Descriptors
  /-- The status of the last command. -/
  status : Status := 0
  /-- The status of the last command whose output has been put into a word of the present one. -/
  substituted : Option Status := none
  /-- The line of the last command. -/
  line : Nat := 1
  /-- Whether a command that fails ends the script. -/
  endsOnFailure : Bool := false
  /-- Whether a parameter without a value ends the script. -/
  endsOnUnset : Bool := false

/-- Why a command does not end in the usual way. -/
inductive Interruption where
  | exit (status : Status)
  | returned (status : Status)
  /-- Leave a number of loops. -/
  | leaveLoop (count : Nat)
  /-- Go on with the next round of a loop, after leaving those in it. -/
  | nextRound (count : Nat)

/-- A step in running a script. -/
abbrev SessionStep := EStateM Interruption Session

namespace SessionStep

/-- Carry out a step on the machine. -/
def onMachine {α : Type} (step : StateM Machine α) : SessionStep α := fun s =>
  let (a, machine) := step s.machine
  .ok a { s with machine }

/-- Carry out a step, and go on with an interruption as with a result. -/
def attempt {α : Type} (step : SessionStep α) : SessionStep (Except Interruption α) := fun s =>
  match step s with
  | .ok a s => .ok (.ok a) s
  | .error e s => .ok (.error e) s

/-- The status with which something ends that is run on its own. -/
def statusOf : Except Interruption Status → Status
  | .ok status | .error (.exit status) | .error (.returned status) => status
  | .error _ => 0

/-- Carry out a step on its own: of what it does, only the effects on the machine remain. -/
def isolated (step : SessionStep Status) : SessionStep Status := do
  let before ← get
  let status := statusOf (← attempt step)
  modify fun s =>
    { before with
      machine.channels := s.machine.channels
      machine.disk := { s.machine.disk with workingDirectory := before.machine.disk.workingDirectory } }
  return status

/-- Carry out a step with other descriptors. -/
def withDescriptors {α : Type} (descriptors : Descriptors) (step : SessionStep α) : SessionStep α := do
  let before := (← get).descriptors
  modify fun s => { s with descriptors }
  let result ← attempt step
  modify fun s => { s with descriptors := before }
  match result with
  | .ok a => return a
  | .error e => throw e

/-- Write to a descriptor. -/
def write (descriptor : Nat) (bytes : Bytes) : SessionStep Unit := do
  if let some number := (← get).descriptors.lookup descriptor then onMachine (Machine.write number bytes)

/-- Write a complaint, under the name of the script and the number of the line. -/
def complain (text : String) : SessionStep Unit := do
  let s ← get
  write Process.standardError
    (Utf8.encode (s.name ++ ": " ++ toString s.line ++ ": " ++ text ++ "\n"))

/-- Take note of a status. -/
def finish (status : Status) : SessionStep Status := do
  modify fun s => { s with status }
  return status

end SessionStep

namespace Session

/-- Where programs are looked for if nothing says it. -/
def defaultSearch : String := "/usr/local/sbin:/usr/local/bin:/usr/sbin:/usr/bin:/sbin:/bin"

/-- A session that starts on a machine. -/
def start (machine : Machine) (name : String) (arguments : List String)
    (environment : List (String × String)) (descriptors : Descriptors) : Session :=
  let exported := environment.map fun (name, value) => (name, ({ value, exported := true } : Variable))
  let search := if environment.any (·.1 = "PATH") then [] else [("PATH", { value := defaultSearch })]
  { machine, name, arguments, descriptors
    bindings := exported ++ search ++
      [("IFS", { value := " \t\n" }), ("PWD", { value := machine.disk.workingPath.text })] }

/-- The value of a variable. -/
def valueOf? (s : Session) (name : String) : Option String :=
  (s.bindings.lookup name).map (·.value)

/-- The directories in which programs are looked for. Without any it is the working directory. -/
def searched (s : Session) : String := (s.valueOf? "PATH").getD ""

/-- Give a value to a variable. -/
def assign (name value : String) (exports : Bool) (s : Session) : Session :=
  let exported := exports || (s.bindings.lookup name).any (·.exported)
  { s with bindings := (name, ⟨value, exported⟩) :: s.bindings.filter (·.1 ≠ name) }

/-- Take the value of a variable away. -/
def unassign (name : String) (s : Session) : Session :=
  { s with bindings := s.bindings.filter (·.1 ≠ name) }

/-- Make a variable local to the function that runs. It keeps its value until it is given another. -/
def localize (name : String) (s : Session) : Session :=
  if s.locals.any (·.1 = name) then s
  else { s with locals := (name, s.bindings.lookup name) :: s.locals }

/-- The session with its local variables as they were outside of the function. -/
def globalized (s : Session) : Session :=
  let others := s.bindings.filter fun (name, _) => !s.locals.any (·.1 = name)
  let outer := s.locals.filterMap fun (name, v) => v.map (name, ·)
  { s with bindings := outer ++ others, locals := [] }

/-- The environment for programs that are called. -/
def environment (s : Session) : List (String × String) :=
  s.bindings.filterMap fun (name, v) => if v.exported then some (name, v.value) else none

/-- The arguments with blanks between them, or what separates fields instead. -/
def joinedArguments (s : Session) : String :=
  let separator := match s.valueOf? "IFS" with
    | none => " "
    | some text => String.ofList (text.toList.take 1)
  separator.intercalate s.arguments

/-- The value of a parameter: of a variable, of an argument, or what a special character stands for. -/
def parameter? (s : Session) (name : String) : Option String :=
  match name with
  | "@" | "*" => if s.arguments = [] then none else some s.joinedArguments
  | "#" => some (toString s.arguments.length)
  | "?" => some (toString s.status)
  | "$" => some "1000"
  | "!" => none
  | "-" => some (if s.endsOnFailure then "e" else "")
  | "0" => some s.name
  | name =>
    match name.toNat? with
    | some n => s.arguments[n - 1]?
    | none => s.valueOf? name

/-- The process of a program that is called. -/
def process (s : Session) (name : String) (arguments : List String) : Process :=
  ⟨name, arguments, s.environment, s.descriptors⟩

end Session

end ProcessorBench.Shell
