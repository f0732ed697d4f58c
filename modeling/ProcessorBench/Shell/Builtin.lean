import ProcessorBench.Shell.Expansion

/-!
# Commands of the shell itself

The commands that change the session, so that they cannot be programs of their own.
-/

namespace ProcessorBench.Shell.Builtin

/-- A command of the shell, for its arguments. -/
abbrev Run := List String → SessionStep Status

/-- The number that an argument gives, or else another. -/
def numberOr (default : SessionStep Nat) : List String → SessionStep Nat
  | argument :: _ =>
    match argument.toNat? with
    | some n => return n
    | none => do
      SessionStep.complain ("Illegal number: " ++ argument)
      throw (.exit 2)
  | [] => default

/-- End the script. -/
def exit : Run := fun arguments => do
  throw (.exit ((← numberOr (return (← get).status) arguments) % 256))

/-- End a function, or a script that is read into another. -/
def return_ : Run := fun arguments => do
  throw (.returned ((← numberOr (return (← get).status) arguments) % 256))

/-- Leave loops. -/
def break_ : Run := fun arguments => do throw (.leaveLoop (← numberOr (pure 1) arguments))

/-- Go on with the next round of a loop. -/
def continue_ : Run := fun arguments => do throw (.nextRound (← numberOr (pure 1) arguments))

/-- Drop arguments from the front. -/
def shift : Run := fun arguments => do
  let count ← numberOr (pure 1) arguments
  if count > (← get).arguments.length then
    SessionStep.complain "shift: can't shift that many"
    throw (.exit 2)
  else
    modify fun s => { s with arguments := s.arguments.drop count }
    return 0

/-- Set the options that some letters name. -/
def setLetters (on : Bool) (letters : List Char) (s : Session) : Session :=
  letters.foldl (fun s letter =>
    if letter = 'e' then { s with endsOnFailure := on }
    else if letter = 'u' then { s with endsOnUnset := on }
    else s) s

/-- Set options and arguments. -/
def setOptions : Run
  | [] => return 0
  | first :: rest =>
    match first.toList with
    | ['-', '-'] => do
      modify fun s => { s with arguments := rest }
      return 0
    | '-' :: letters => do
      modify (setLetters true letters)
      setOptions rest
    | '+' :: letters => do
      modify (setLetters false letters)
      setOptions rest
    | _ => do
      modify fun s => { s with arguments := first :: rest }
      return 0

/-- The name and the value of an assignment. -/
def assignment? (argument : String) : Option (String × String) :=
  let name := argument.toList.takeWhile (· ≠ '=')
  if name.length = argument.length then none
  else some (String.ofList name, String.ofList (argument.toList.drop (name.length + 1)))

/-- Assign values to variables, which programs get in their environment if asked for. -/
def declare (exports : Bool) : Run := fun arguments => do
  arguments.forM fun argument => do
    match assignment? argument with
    | some (name, value) => modify (Session.assign name value exports)
    | none =>
      if exports then
        match (← get).valueOf? argument with
        | some value => modify (Session.assign argument value true)
        | none => pure ()
  return 0

/-- Make variables local to a function, and assign values to them. -/
def declareLocal : Run := fun arguments => do
  arguments.forM fun argument => do
    match assignment? argument with
    | some (name, value) => modify fun s => (s.localize name).assign name value false
    | none => modify (Session.localize argument)
  return 0

/-- Say what is done when the script ends. Other signals do not occur. -/
def trap : Run := fun arguments => do
  match arguments with
  | action :: conditions =>
    if conditions.any fun condition => condition = "EXIT" || condition = "0" then
      modify fun s => { s with lastWords := if action = "-" then "" else action }
  | [] => pure ()
  return 0

/-- Take values and functions away. -/
def unset : Run := fun arguments => do
  arguments.forM fun name => do
    if name = "-f" || name = "-v" then return
    modify fun s => { s.unassign name with functions := s.functions.filter (·.1 ≠ name) }
  return 0

/-- Go to another directory. -/
def changeDirectory : Run := fun arguments => do
  let s ← get
  let target := arguments.headD ((s.valueOf? "HOME").getD "/")
  let disk := s.machine.disk
  match disk.locate ⟨target⟩ with
  | .ok location =>
    if disk.tree.at? location |>.any (·.isDir) then
      modify fun s => { s with machine.disk := { disk with workingDirectory := location } }
      let path := (← get).machine.disk.workingPath.text
      modify (Session.assign "PWD" path false)
      return 0
    else
      SessionStep.complain ("cd: can't cd to " ++ target)
      return 2
  | .error _ =>
    SessionStep.complain ("cd: can't cd to " ++ target)
    return 2

/-- Print the working directory. -/
def printDirectory : Run := fun _ => do
  SessionStep.write Process.standardOutput (Utf8.encode ((← get).machine.disk.workingPath.text ++ "\n"))
  return 0

/-- A line with its backslashes left out, which quote the characters behind them. -/
def unquote : List Char → List MarkedChar
  | '\\' :: c :: rest => ⟨c, true⟩ :: unquote rest
  | c :: rest => ⟨c, false⟩ :: unquote rest
  | [] => []

/-- Divide a line between so many variables and one more, which gets all that is left. -/
def divide (separators : List Char) : Nat → List MarkedChar → List (List MarkedChar)
  | count, line =>
    let isSeparator (c : MarkedChar) : Bool := !c.quoted && separators.contains c.char
    let isBlank (c : MarkedChar) : Bool := !c.quoted && Expansion.isBlankSeparator separators c.char
    let line := line.dropWhile isBlank
    match count with
    | 0 => [(line.reverse.dropWhile isBlank).reverse]
    | count + 1 =>
      let first := line.takeWhile (!isSeparator ·)
      let rest := (line.drop first.length).dropWhile isBlank
      let rest := match rest with
        | c :: more => if isSeparator c then more else rest
        | [] => []
      first :: divide separators count rest

/-- Read a line, and divide it between variables. The status tells whether the line had an end. -/
def readLine : Run := fun arguments => do
  let isRaw := arguments.head? = some "-r"
  let names := if isRaw then arguments.drop 1 else arguments
  let s ← get
  let bytes ← match s.descriptors.lookup Process.standardInput with
    | some number => SessionStep.onMachine (Machine.readLine number)
    | none => pure []
  let isEnded := bytes.getLast? = some 0x0a
  let text := (Utf8.decodeLossy (if isEnded then bytes.dropLast else bytes)).toList
  let line := if isRaw then Expansion.marked false (String.ofList text) else unquote text
  let names := if names = [] then ["REPLY"] else names
  let values := divide (Expansion.separatorsOf s) (names.length - 1) line
  (names.zip values).forM fun (name, value) =>
    modify (Session.assign name (String.ofList (value.map (·.char))) false)
  return if isEnded then 0 else 1

/-- Send a signal. The only process there is to send one to is the shell itself. -/
def kill : Run := fun arguments => do
  let signal := match arguments with
    | "-9" :: _ | "-KILL" :: _ => 9
    | "-2" :: _ | "-INT" :: _ => 2
    | _ => 15
  if arguments.getLast? = (← get).parameter? "$" then throw (.exit (128 + signal)) else return 1

/-- The commands of the shell, by their names. -/
def table : List (String × Run) :=
  [(":", fun _ => pure 0), ("break", break_), ("cd", changeDirectory), ("continue", continue_),
   ("exit", exit), ("export", declare true), ("hash", fun _ => pure 0), ("kill", kill),
   ("local", declareLocal), ("pwd", printDirectory), ("read", readLine), ("readonly", declare false),
   ("return", return_), ("set", setOptions), ("shift", shift), ("trap", trap),
   ("umask", fun _ => pure 0), ("unset", unset), ("wait", fun _ => pure 0)]

/-- The commands of the shell whose assignments last. -/
def special : List String :=
  [".", ":", "break", "continue", "eval", "exec", "exit", "export", "readonly", "return", "set", "shift",
   "trap", "unset"]

/-- The commands of the shell that run others. -/
def callers : List String := [".", "command", "eval", "exec", "type"]

/-- The utilities that the shell has in itself too. -/
def utilities : List String := ["[", "echo", "false", "printf", "test", "true"]

end ProcessorBench.Shell.Builtin
