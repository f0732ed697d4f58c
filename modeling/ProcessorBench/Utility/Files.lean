import ProcessorBench.Utility.Options

/-!
# Files and directories

The utilities that copy, move, remove and list files. Each goes on with its other operands after one that it
cannot handle, and then ends with status 1.
-/

namespace ProcessorBench

mutual

/-- A tree with another laid over it: files are replaced, and directories hold the entries of both. -/
def FileTree.laidOver : FileTree → FileTree → FileTree
  | .file content executable, .file _ _ => .file content executable
  | .dir entries, .dir below => .dir (FileTree.entriesLaidOver entries below)
  | .file .., .dir below => .dir below
  | .dir _, .file content executable => .file content executable

/-- Entries laid over those of a directory. -/
def FileTree.entriesLaidOver : List DirEntry → List DirEntry → List DirEntry
  | [], below => below
  | entry :: rest, below => FileTree.entriesLaidOver rest (FileTree.entryLaidOver entry below)

/-- An entry laid over those of a directory. -/
def FileTree.entryLaidOver : DirEntry → List DirEntry → List DirEntry
  | ⟨name, tree⟩, below =>
    match DirEntry.find? name below with
    | none => DirEntry.set name (some tree) below
    | some old => DirEntry.set name (some (FileTree.laidOver tree old)) below

end

namespace Files

/-- A file in quotation marks. -/
def quoted (operand : String) : String := "'" ++ operand ++ "'"

/-- Do something with each operand. The status tells whether all went well. -/
def forEach (operands : List String) (step : String → ProcessStep Bool) : ProcessStep Status := do
  let results ← operands.mapM step
  return if results.all id then 0 else 1

/-- Complain about an operand. -/
def complainAbout (problem operand : String) (fault : FileFault) : ProcessStep Bool := do
  Process.complain (problem ++ " " ++ quoted operand ++ ": " ++ fault.description)
  return false

/-- The last name of an operand, without slashes at its end. -/
def baseName (operand : String) : String :=
  let names := (Text.splitOn '/' operand).filter (· ≠ "")
  match names.getLast? with
  | some name => name
  | none => if operand = "" then "" else "/"

/-- An operand without its last name. -/
def directoryName (operand : String) : String :=
  let trim (text : List Char) : List Char := (text.reverse.dropWhile (· = '/')).reverse
  let text := trim operand.toList
  let front := (text.reverse.dropWhile (· ≠ '/')).reverse
  if front = [] then (if operand.toList.head? = some '/' then "/" else ".")
  else if trim front = [] then "/"
  else String.ofList (trim front)

/-- Where a file goes that is put at a target: into it, if it is a directory. -/
def destination (disk : Disk) (target source : String) : Path :=
  if disk.isDir ⟨target⟩ then (Path.mk target).join ⟨baseName source⟩ else ⟨target⟩

/-- Put a tree at a path, over what is there. -/
def place (tree : FileTree) (path : Path) : DiskStep Unit := do
  let location ← Disk.locating path
  match (← get).tree.at? location with
  | some old =>
    match tree, old with
    | .file .., .dir _ => throw .isDirectory
    | .dir _, .file .. => throw .notDirectory
    | _, _ => Disk.putAt location (some (tree.laidOver old))
  | none => Disk.putAt location (some tree)

/-- Copy a file or a directory. -/
def copyTo (o : Options) (target source : String) : ProcessStep Bool := do
  let disk ← Process.disk
  match disk.lookup ⟨source⟩ with
  | .error fault => complainAbout "cannot stat" source fault
  | .ok tree =>
    if tree.isDir && !(o.has 'r' || o.has 'R' || o.has 'a') then
      Process.complain ("-r not specified; omitting directory " ++ quoted source)
      return false
    else
      let path := destination disk target source
      match ← Process.onDisk (place tree path) with
      | .ok () => return true
      | .error fault =>
        let problem := if tree.isDir then "cannot create directory" else "cannot create regular file"
        complainAbout problem path.text fault

/-- Copy files, and directories if asked to. -/
def copy : ProcessStep Status :=
  Options.withOptions "rRapfvTPLHd" "" fun o => do
    match o.operands.reverse with
    | target :: source :: more =>
      if more ≠ [] && !(← Process.disk).isDir ⟨target⟩ then
        Process.complain ("target " ++ quoted target ++ ": No such file or directory")
        return 1
      else forEach (source :: more).reverse (copyTo o target)
    | [source] =>
      Options.complainWithHelp ("missing destination file operand after " ++ quoted source)
      return 1
    | [] =>
      Options.complainWithHelp "missing file operand"
      return 1

/-- Move a file or a directory. -/
def moveTo (target source : String) : ProcessStep Bool := do
  let disk ← Process.disk
  match disk.lookup ⟨source⟩ with
  | .error fault => complainAbout "cannot stat" source fault
  | .ok tree =>
    let path := destination disk target source
    let step : DiskStep Unit := do
      let start ← Disk.locating ⟨source⟩
      let stop ← Disk.locating path
      Disk.putAt start none
      Disk.putAt stop (some tree)
    match ← Process.onDisk step with
    | .ok () => return true
    | .error fault => complainAbout "cannot move" source fault

/-- Move files and directories. -/
def move : ProcessStep Status :=
  Options.withOptions "fivnT" "" fun o => do
    match o.operands.reverse with
    | target :: source :: more => forEach (source :: more).reverse (moveTo target)
    | _ =>
      Options.complainWithHelp "missing file operand"
      return 1

/-- Remove files, and directories if asked to. -/
def remove : ProcessStep Status :=
  Options.withOptions "rRfivd" "" fun o => do
    let one (operand : String) : ProcessStep Bool := do
      let step : DiskStep Unit := do
        let location ← Disk.locating ⟨operand⟩
        match (← get).tree.at? location with
        | none => throw .missing
        | some (.file ..) => Disk.putAt location none
        | some (.dir _) =>
          if o.has 'r' || o.has 'R' then Disk.putAt location none else throw .isDirectory
      match ← Process.onDisk step with
      | .ok () => return true
      | .error .missing => if o.has 'f' then return true else complainAbout "cannot remove" operand .missing
      | .error fault => complainAbout "cannot remove" operand fault
    if o.operands = [] && !o.has 'f' then
      Options.complainWithHelp "missing operand"
      return 1
    else forEach o.operands one

/-- Create directories, with those on the way to them if asked to. -/
def makeDirs : ProcessStep Status :=
  Options.withOptions "pv" "m" fun o => do
    let one (operand : String) : ProcessStep Bool := do
      let step := if o.has 'p' then Disk.createDirAll ⟨operand⟩ else Disk.createDir ⟨operand⟩
      match ← Process.onDisk step with
      | .ok () => return true
      | .error fault => complainAbout "cannot create directory" operand fault
    if o.operands = [] then
      Options.complainWithHelp "missing operand"
      return 1
    else forEach o.operands one

/-- Remove empty directories. -/
def removeDirs : ProcessStep Status :=
  Options.withOptions "p" "" fun o => do
    forEach o.operands fun operand => do
      match (← Process.disk).lookup ⟨operand⟩ with
      | .ok (.dir []) =>
        match ← Process.onDisk (Disk.removeDirAll ⟨operand⟩) with
        | .ok () => return true
        | .error fault => complainAbout "failed to remove" operand fault
      | .ok (.dir _) =>
        Process.complain ("failed to remove " ++ quoted operand ++ ": Directory not empty")
        return false
      | .ok (.file ..) => complainAbout "failed to remove" operand .notDirectory
      | .error fault => complainAbout "failed to remove" operand fault

/-- Create files that are not there yet. -/
def touch : ProcessStep Status :=
  Options.withOptions "acm" "drt" fun o => do
    forEach o.operands fun operand => do
      if (← Process.disk).exists? ⟨operand⟩ || o.has 'c' then return true
      else
        match ← Process.onDisk (Disk.write ⟨operand⟩ []) with
        | .ok () => return true
        | .error fault => complainAbout "cannot touch" operand fault

/-- Cut files down to a size, or fill them up to it with zeros. -/
def cutTo : ProcessStep Status :=
  Options.withOptions "c" "s" fun o => do
    match (o.value? 's').bind (·.toNat?) with
    | none =>
      Options.complainWithHelp "you must specify either '--size' or '--reference'"
      return 1
    | some size =>
      forEach o.operands fun operand => do
        match (← Process.disk).read ⟨operand⟩, o.has 'c' with
        | .error .missing, true => return true
        | content, _ =>
          let old := content.toOption.getD []
          let new := old.take size ++ List.replicate (size - old.length) 0
          match ← Process.onDisk (Disk.write ⟨operand⟩ new) with
          | .ok () => return true
          | .error fault =>
            Process.complain ("cannot open " ++ quoted operand ++ " for writing: " ++ fault.description)
            return false

/-- Whether a file can be run in a mode, given whether it can be now. A mode is an octal number, or changes such
as `u+x` with commas between them. -/
def isExecutableWith (mode : String) (now : Bool) : Bool :=
  if mode.toList.all (·.isDigit) then mode.toList.any fun c => (c.toNat - '0'.toNat) % 2 = 1
  else
    (Text.splitOn ',' mode).foldl (fun now change =>
      match change.toList.dropWhile ("ugoa".contains ·) with
      | '+' :: letters => now || letters.contains 'x'
      | '-' :: letters => now && !letters.contains 'x'
      | '=' :: letters => letters.contains 'x'
      | _ => now) now

/-- Let files be run, or not. -/
def changeMode : ProcessStep Status := do
  match (← read).arguments with
  | mode :: operands =>
    forEach operands fun operand => do
      let step : DiskStep Unit := do
        let location ← Disk.locating ⟨operand⟩
        match (← get).tree.at? location with
        | some (.file content executable) =>
          Disk.putAt location (some (.file content (isExecutableWith mode executable)))
        | some (.dir _) => return
        | none => throw .missing
      match ← Process.onDisk step with
      | .ok () => return true
      | .error fault => complainAbout "cannot access" operand fault
  | [] =>
    Options.complainWithHelp "missing operand"
    return 1

/-- Print the last names of paths, without a suffix if one is given. -/
def printBaseName : ProcessStep Status :=
  Options.withOptions "az" "s" fun o => do
    let (operands, suffix) := match o.operands, o.value? 's' with
      | operands, some suffix => (operands, suffix)
      | [operand, suffix], none => if o.has 'a' then ([operand, suffix], "") else ([operand], suffix)
      | operands, none => (operands, "")
    let withoutSuffix (name : List Char) : List Char :=
      let suffix := suffix.toList
      if suffix.isSuffixOf name && suffix ≠ name then name.take (name.length - suffix.length) else name
    if operands = [] then
      Options.complainWithHelp "missing operand"
      return 1
    else
      operands.forM fun operand =>
        Process.say (String.ofList (withoutSuffix (baseName operand).toList) ++ "\n")
      return 0

/-- Print paths without their last names. -/
def printDirectoryName : ProcessStep Status := do
  match (← read).arguments with
  | [] =>
    Options.complainWithHelp "missing operand"
    return 1
  | operands =>
    operands.forM fun operand => Process.say (directoryName operand ++ "\n")
    return 0

end Files

end ProcessorBench
