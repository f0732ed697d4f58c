import ProcessorBench.Shell.Builtin

/-!
# Running scripts

`Shell.run` runs a command, and `Shell.start` whatever a program is started as, be it a utility or a script.
Both have a bound on their depth, so that a script that would never end is ended.
-/

namespace ProcessorBench.Shell

open SessionStep

/-- The status of a script that is ended because it goes too deep or on for too long. -/
def exhausted : Status := 137

/-- The numbers of a channel that a descriptor is to lead to, or why it cannot be opened. -/
def openTarget (kind : RedirectionKind) (target : String) : SessionStep (Except String (Option Nat)) := do
  let descriptors := (← get).descriptors
  let opened (channel : Channel) : SessionStep (Except String (Option Nat)) := do
    return .ok (some (← onMachine (Machine.openChannel channel)))
  let isWritten := kind = .output || kind = .append
  match kind with
  | .text => opened (.input (Utf8.encode target))
  | .duplicate =>
    if target = "-" then return .ok none
    else
      match target.toNat?.bind (descriptors.lookup ·) with
      | some number => return .ok (some number)
      | none => return .error (target ++ ": Bad file descriptor")
  | _ =>
    if target = "/dev/null" then opened .nowhere
    else if target = "/dev/stdout" && isWritten then
      return .ok (descriptors.lookup Process.standardOutput)
    else if target = "/dev/stderr" && isWritten then
      return .ok (descriptors.lookup Process.standardError)
    else if isWritten then
      let step : DiskStep Location := do
        let location ← Disk.locating ⟨target⟩
        if kind = .output || ((← get).tree.at? location).isNone then Disk.write ⟨target⟩ []
        if ((← get).tree.at? location).any (·.isDir) then throw .isDirectory
        return location
      match ← onMachine (Machine.onDisk step) with
      | .ok location => opened (.file location (if kind = .append then none else some 0))
      | .error fault =>
        let reason := match fault with
          | .missing => "Directory nonexistent"
          | fault => fault.description
        return .error ("cannot create " ++ target ++ ": " ++ reason)
    else
      match (← get).machine.disk.read ⟨target⟩ with
      | .ok content => opened (.input content)
      | .error fault =>
        let reason := match fault with
          | .missing => "No such file"
          | fault => fault.description
        return .error ("cannot open " ++ target ++ ": " ++ reason)

/-- Let a descriptor lead to a channel, or nowhere. -/
def redirect (descriptor : Nat) (number : Option Nat) : SessionStep Unit :=
  modify fun s =>
    let others := s.descriptors.filter (·.1 ≠ descriptor)
    { s with descriptors := (number.map (descriptor, ·)).toList ++ others }

/-- Carry out a step of a process in a session. -/
def runProcess (name : String) (arguments : List String) (step : ProcessStep Status) :
    SessionStep Status := do
  let process := (← get).process name arguments
  onMachine (step process)

/-- What the shell says about a program that cannot be started, and the status for it. -/
def launchComplaint (name : String) : LaunchFault → String × Status
  | .missing => (name ++ ": not found", 127)
  | .denied | .notDirectory | .noProgram | .invalid => (name ++ ": Permission denied", 126)

/-- What a name stands for as that of a command. -/
inductive Meaning where
  /-- Something that the shell knows itself. -/
  | inside (kind : String)
  | program (path : String)
  | none
deriving DecidableEq

/-- What a name stands for. -/
def meaning (s : Session) (name : String) : Meaning :=
  if Reader.reservedWords.contains name then .inside "shell keyword"
  else if (s.functions.lookup name).isSome then .inside "shell function"
  else if (Builtin.table.lookup name).isSome || Builtin.callers.contains name ||
      Builtin.utilities.contains name then .inside "shell builtin"
  else
    match Invocation.find s.machine.disk (some s.searched) name [] with
    | .ok invocation => .program invocation.path
    | .error _ => .none

/-- The arguments of `env` taken apart: the changes of the environment and the command. -/
def environmentChanges : List String → List (String × String) × List String
  | [] => ([], [])
  | argument :: rest =>
    match Builtin.assignment? argument with
    | some change =>
      let (changes, command) := environmentChanges rest
      (change :: changes, command)
    | none => ([], argument :: rest)

/-- The file of a script with its name and its arguments, from the arguments of the shell. -/
def scriptOf (disk : Disk) : List Char → List String → Except String (List Char × String × List String × List Char)
  | letters, [] => .ok ([], "sh", [], letters)
  | letters, first :: rest =>
    match first.toList with
    | ['-', 'c'] =>
      match rest with
      | text :: name :: arguments => .ok (text.toList, name, arguments, letters)
      | [text] => .ok (text.toList, "sh", [], letters)
      | [] => .error "0: -c requires an argument"
    | '-' :: more => scriptOf disk (letters ++ more) rest
    | _ =>
      match disk.read ⟨first⟩ with
      | .ok content => .ok ((Utf8.decodeLossy content).toList, first, rest, letters)
      | .error _ => .error ("0: cannot open " ++ first)

mutual

/-- Start a program. Its status is the result. -/
def start : Nat → Invocation → List (String × String) → Descriptors → StateM Machine Status
  | 0, _, _, _ => return exhausted
  | fuel + 1, invocation, environment, descriptors => do
    match invocation.utility with
    | .steps step => step ⟨invocation.name, invocation.arguments, environment, descriptors⟩
    | .env =>
      let (changes, command) := environmentChanges invocation.arguments
      let environment := changes ++ environment.filter fun (name, _) => !changes.any (·.1 = name)
      let process : Process := ⟨invocation.name, invocation.arguments, environment, descriptors⟩
      match command with
      | [] =>
        (environment.forM fun (name, value) => Process.say (name ++ "=" ++ value ++ "\n")) process
        return 0
      | program :: arguments =>
        match Invocation.find (← get).disk (environment.lookup "PATH") program arguments with
        | .ok next => start fuel next environment descriptors
        | .error _ =>
          Process.complain ("'" ++ program ++ "': No such file or directory") process
          return 127
    | .shell =>
      let machine ← get
      match scriptOf machine.disk [] invocation.arguments with
      | .error message =>
        Process.complain message ⟨invocation.name, invocation.arguments, environment, descriptors⟩
        return 2
      | .ok (text, name, arguments, letters) =>
        let session := Builtin.setLetters true letters
          (Session.start machine name arguments environment descriptors)
        match conclude fuel (runScript fuel ⟨text, 1⟩ 0) session with
        | .ok status session =>
          set { session.machine with disk.workingDirectory := machine.disk.workingDirectory }
          return status
        | .error _ session =>
          set session.machine
          return exhausted

/-- Carry out the steps of a script, and then the commands that it has left for its end. -/
def conclude : Nat → SessionStep Status → SessionStep Status
  | 0, _ => throw (.exit exhausted)
  | fuel + 1, step => do
    let status ← finish (statusOf (← attempt step))
    let lastWords := (← get).lastWords
    match ← attempt (runScript fuel ⟨lastWords.toList, 1⟩ 0) with
    | .error (.exit status) => return status
    | _ => return status

/-- Run what is left of a script. The status of the last command is the result. -/
def runScript : Nat → Source → Status → SessionStep Status
  | 0, _, _ => throw (.exit exhausted)
  | fuel + 1, source, status => do
    match nextCommand source with
    | .error e =>
      modify fun s => { s with line := e.line }
      complain e.message
      throw (.exit 2)
    | .ok (none, _) => return status
    | .ok (some command, source) =>
      let status ← run fuel false command
      runScript fuel source status

/-- What a command prints, without line ends at its end. -/
def capture : Nat → Command → SessionStep String
  | 0, _ => throw (.exit exhausted)
  | fuel + 1, command => do
    let number ← onMachine (Machine.openChannel (.kept []))
    let status ← isolated do
      redirect Process.standardOutput (some number)
      run fuel false command
    let _ ← finish status
    modify fun s => { s with substituted := some status }
    let text := (Utf8.decodeLossy ((← get).machine.writtenTo number)).toList
    return String.ofList (Expansion.withoutLineEnds text)

/-- The arguments that words stand for. -/
def argumentsFor : Nat → List Word → SessionStep (List String)
  | 0, _ => throw (.exit exhausted)
  | _ + 1, [] => return []
  | fuel + 1, word :: rest => do
    let parts ← Expansion.expand (capture fuel) (fuel + 1) word
    let s ← get
    let fields := Expansion.fieldsOf (Expansion.separatorsOf s) parts
    let arguments := fields.flatMap (Expansion.argumentsOf s.machine.disk)
    return arguments ++ (← argumentsFor fuel rest)

/-- The text that a word stands for where it is not split. -/
def textFor : Nat → Word → SessionStep String
  | 0, _ => throw (.exit exhausted)
  | fuel + 1, word => return Expansion.textOf (← Expansion.expand (capture fuel) (fuel + 1) word)

/-- Carry out redirections, one after the other. The result tells whether all could be. -/
def redirectAll : Nat → List Redirection → SessionStep Bool
  | 0, _ => throw (.exit exhausted)
  | _ + 1, [] => return true
  | fuel + 1, .mk descriptor kind target :: rest => do
    match ← openTarget kind (← textFor fuel target) with
    | .ok number =>
      redirect descriptor number
      redirectAll fuel rest
    | .error message =>
      complain message
      return false

/-- Carry out assignments, one after the other. -/
def assignAll : Nat → Bool → List (String × Word) → SessionStep Unit
  | 0, _, _ => throw (.exit exhausted)
  | _ + 1, _, [] => return
  | fuel + 1, exports, (name, word) :: rest => do
    let value ← textFor fuel word
    modify (Session.assign name value exports)
    assignAll fuel exports rest

/-- Call a function, a command of the shell or a program by its name. -/
def call : Nat → Bool → String → List String → SessionStep Status
  | 0, _, _, _ => throw (.exit exhausted)
  | fuel + 1, tested, name, arguments => do
    let s ← get
    match s.functions.lookup name, Builtin.table.lookup name with
    | some body, _ =>
      set { s with arguments, locals := [] }
      let result ← attempt (run fuel tested body)
      modify fun after => { after.globalized with arguments := s.arguments, locals := s.locals }
      match result with
      | .ok status | .error (.returned status) => return status
      | .error e => throw e
    | none, some builtin => builtin arguments
    | none, none =>
      match name, arguments with
      | "eval", _ => runScript fuel ⟨(" ".intercalate arguments).toList, s.line⟩ 0
      | "command", name :: arguments =>
        if name = "-v" then
          match meaning s (arguments.headD "") with
          | .inside _ =>
            write Process.standardOutput (Utf8.encode (arguments.headD "" ++ "\n"))
            return 0
          | .program path =>
            write Process.standardOutput (Utf8.encode (path ++ "\n"))
            return 0
          | .none => return 127
        else call fuel tested name arguments
      | "type", names =>
        let found ← names.mapM fun name => do
          let text := match meaning s name with
            | .inside kind => " is a " ++ kind
            | .program path => " is " ++ path
            | .none => ": not found"
          write Process.standardOutput (Utf8.encode (name ++ text ++ "\n"))
          return decide (meaning s name ≠ .none)
        return if found.all id then 0 else 127
      | "exec", [] => return 0
      | "exec", name :: arguments =>
        throw (.exit (← call fuel tested name arguments))
      | ".", path :: _ =>
        match s.machine.disk.read ⟨path⟩ with
        | .ok content =>
          let result ← attempt (runScript fuel ⟨(Utf8.decodeLossy content).toList, 1⟩ 0)
          match result with
          | .ok status | .error (.returned status) => return status
          | .error e => throw e
        | .error _ =>
          complain (".: cannot open " ++ path ++ ": No such file")
          throw (.exit 2)
      | _, _ =>
        match (if Builtin.utilities.contains name then Utility.table.lookup name else none) with
        | some (.steps step) =>
          runProcess (s.name ++ ": " ++ toString s.line ++ ": " ++ name) arguments step
        | _ =>
          match Invocation.find s.machine.disk (some s.searched) name arguments with
          | .ok invocation => onMachine (start fuel invocation s.environment s.descriptors)
          | .error .noProgram =>
            let script : Invocation := ⟨.shell, name, name, name :: arguments⟩
            onMachine (start fuel script s.environment s.descriptors)
          | .error fault =>
            let (complaint, status) := launchComplaint name fault
            complain complaint
            return status

/-- Run a simple command. -/
def runSimple : Nat → Bool → List (String × Word) → List Word → List Redirection → SessionStep Status
  | 0, _, _, _, _ => throw (.exit exhausted)
  | fuel + 1, tested, assignments, words, redirections => do
    modify fun s => { s with substituted := none }
    match ← argumentsFor fuel words with
    | [] =>
      assignAll fuel false assignments
      let status := (← get).substituted.getD 0
      withDescriptors (← get).descriptors do
        return if ← redirectAll fuel redirections then status else 2
    | name :: arguments =>
      let before ← get
      let result ← attempt do
        if !(← redirectAll fuel redirections) then return 2
        assignAll fuel true assignments
        call fuel tested name arguments
      if name ≠ "exec" then modify fun s => { s with descriptors := before.descriptors }
      let changed := if Builtin.special.contains name then [] else assignments.map (·.1)
      modify fun s =>
        { s with bindings :=
            before.bindings.filter (changed.contains ·.1) ++
              s.bindings.filter (!changed.contains ·.1) }
      match result with
      | .ok status => return status
      | .error e => throw e

/-- Run commands of which each reads what the one before it prints. -/
def runPipeline : Nat → List Command → SessionStep Status
  | 0, _ => throw (.exit exhausted)
  | _ + 1, [] => return 0
  | fuel + 1, [command] => isolated (run fuel false command)
  | fuel + 1, command :: rest => do
    let number ← onMachine (Machine.openChannel (.kept []))
    let _ ← isolated do
      redirect Process.standardOutput (some number)
      run fuel false command
    let printed := (← get).machine.writtenTo number
    let input ← onMachine (Machine.openChannel (.input printed))
    withDescriptors ((Process.standardInput, input) :: (← get).descriptors) (runPipeline fuel rest)

/-- Run the body of a loop while its condition holds, or until it does. -/
def runLoop : Nat → Bool → Bool → Command → Command → Status → SessionStep Status
  | 0, _, _, _, _, _ => throw (.exit exhausted)
  | fuel + 1, tested, untilHolds, condition, body, status => do
    let holds := (← run fuel true condition) = 0
    if holds = untilHolds then return status
    match ← attempt (run fuel tested body) with
    | .ok status => runLoop fuel tested untilHolds condition body status
    | .error (.leaveLoop count) => if count ≤ 1 then return 0 else throw (.leaveLoop (count - 1))
    | .error (.nextRound count) =>
      if count ≤ 1 then runLoop fuel tested untilHolds condition body 0
      else throw (.nextRound (count - 1))
    | .error e => throw e

/-- Run the body of a loop for each of some values. -/
def runForEach : Nat → Bool → String → List String → Command → Status → SessionStep Status
  | 0, _, _, _, _, _ => throw (.exit exhausted)
  | _ + 1, _, _, [], _, status => return status
  | fuel + 1, tested, name, value :: rest, body, _ => do
    modify (Session.assign name value false)
    match ← attempt (run fuel tested body) with
    | .ok status => runForEach fuel tested name rest body status
    | .error (.leaveLoop count) => if count ≤ 1 then return 0 else throw (.leaveLoop (count - 1))
    | .error (.nextRound count) =>
      if count ≤ 1 then runForEach fuel tested name rest body 0 else throw (.nextRound (count - 1))
    | .error e => throw e

/-- Whether a text matches one of some patterns. -/
def matchesAny : Nat → List Char → List Word → SessionStep Bool
  | 0, _, _ => throw (.exit exhausted)
  | _ + 1, _, [] => return false
  | fuel + 1, text, word :: rest => do
    let parts ← Expansion.expand (capture fuel) (fuel + 1) word
    if (Pattern.ofMarked (Expansion.charactersOf parts)).isMatch text then return true
    else matchesAny fuel text rest

/-- Run the first of some cases that a text matches. -/
def runCases : Nat → Bool → List Char → List (List Word × Command) → SessionStep Status
  | 0, _, _, _ => throw (.exit exhausted)
  | _ + 1, _, _, [] => return 0
  | fuel + 1, tested, text, (patterns, body) :: rest => do
    if ← matchesAny fuel text patterns then run fuel tested body
    else runCases fuel tested text rest

/-- Run commands one after the other. -/
def runAll : Nat → Bool → List Command → Status → SessionStep Status
  | 0, _, _, _ => throw (.exit exhausted)
  | _ + 1, _, [], status => return status
  | fuel + 1, tested, command :: rest, _ => do
    let status ← run fuel tested command
    runAll fuel tested rest status

/-- Run a command. If failures end the script, one of a command that is not tested does. -/
def run : Nat → Bool → Command → SessionStep Status
  | 0, _, _ => throw (.exit exhausted)
  | fuel + 1, tested, command => do
    let checked (status : Status) : SessionStep Status := do
      let status ← finish status
      if status ≠ 0 && !tested && (← get).endsOnFailure then throw (.exit status) else return status
    match command with
    | .simple line assignments words redirections =>
      modify fun s => { s with line }
      checked (← runSimple fuel tested assignments words redirections)
    | .pipeline commands => checked (← runPipeline fuel commands)
    | .negated inner => finish (if (← run fuel true inner) = 0 then 1 else 0)
    | .sequence commands => finish (← runAll fuel tested commands 0)
    | .both first second =>
      let status ← run fuel true first
      if status = 0 then run fuel tested second else return status
    | .either first second =>
      let status ← run fuel true first
      if status = 0 then return status else run fuel tested second
    | .branch condition consequent otherwise =>
      if (← run fuel true condition) = 0 then run fuel tested consequent
      else
        let _ ← finish 0
        run fuel tested otherwise
    | .loop untilHolds condition body => finish (← runLoop fuel tested untilHolds condition body 0)
    | .forEach name words body =>
      let values ← match words with
        | some words => argumentsFor fuel words
        | none => pure (← get).arguments
      finish (← runForEach fuel tested name values body 0)
    | .choice word cases =>
      let text ← textFor fuel word
      finish (← runCases fuel tested text.toList cases)
    | .subshell body =>
      checked <| ← isolated do
        modify fun s => { s with lastWords := "" }
        conclude fuel (run fuel tested body)
    | .redirected body redirections =>
      withDescriptors (← get).descriptors do
        if ← redirectAll fuel redirections then run fuel tested body else checked 2
    | .definition name body =>
      modify fun s => { s with functions := (name, body) :: s.functions.filter (·.1 ≠ name) }
      finish 0

end

/-- A bound on the depth to which a program runs. -/
def depthLimit : Nat := 1000000

/-- What a program leaves. -/
structure Output where
  status : Status
  output : Bytes
  errors : Bytes

/-- Run a program without input until it ends, and keep what it writes. -/
def runProgram (invocation : Invocation) (environment : List (String × String)) (disk : Disk) :
    Output × Disk :=
  let machine : Machine := ⟨disk, [.nowhere, .kept [], .kept []]⟩
  let descriptors : Descriptors :=
    [(Process.standardInput, 0), (Process.standardOutput, 1), (Process.standardError, 2)]
  let (status, machine) := start depthLimit invocation environment descriptors machine
  (⟨status, machine.writtenTo 1, machine.writtenTo 2⟩, machine.disk)

end ProcessorBench.Shell
