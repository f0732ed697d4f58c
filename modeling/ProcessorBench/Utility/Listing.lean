import ProcessorBench.Shell.Pattern
import ProcessorBench.Utility.Files

/-!
# Listing files

The utilities that tell what is on the disk: `ls`, `find`, `readlink` and `realpath`.
-/

namespace ProcessorBench.Listing

/-! ## Directories -/

/-- The names in a directory, without those that start with a point unless they are asked for. -/
def namesIn (o : Options) (entries : List DirEntry) : List String :=
  let names := entries.map (·.name)
  if o.has 'a' then "." :: ".." :: names
  else if o.has 'A' then names
  else names.filter fun name => name.toList.head? ≠ some '.'

/-- Names in the order that is asked for, with a slash behind those of directories where it is. -/
def arranged (o : Options) (isDir : String → Bool) (names : List String) : List String :=
  let names := if o.has 'r' then names.reverse else names
  names.map fun name => if (o.has 'p' || o.has 'F') && isDir name then name ++ "/" else name

mutual

/-- The names in a directory, and in those below it if that is asked for, under their paths. -/
def listing (o : Options) (isTitled : Bool) (path : String) : FileTree → List (List String)
  | .file .. => []
  | .dir entries =>
    let isDir (name : String) : Bool := (DirEntry.find? name entries).any (·.isDir)
    let names := arranged o isDir (namesIn o entries)
    let own := if isTitled || o.has 'R' then (path ++ ":") :: names else names
    own :: if o.has 'R' then listingBelow o path entries else []

/-- The listings of the directories among some entries. -/
def listingBelow (o : Options) (path : String) : List DirEntry → List (List String)
  | [] => []
  | entry :: rest => listingOfEntry o path entry ++ listingBelow o path rest

/-- The listings of an entry, if it is a directory that is not hidden. -/
def listingOfEntry (o : Options) (path : String) : DirEntry → List (List String)
  | ⟨name, tree⟩ =>
    if name.toList.head? = some '.' && !(o.has 'a' || o.has 'A') then []
    else listing o true (path ++ "/" ++ name) tree

end

/-- List the names in directories, one in a line. -/
def list : ProcessStep Status :=
  Options.withOptions "1aAlRrdFptSUX" "" fun o => do
    let operands := (if o.operands = [] then ["."] else o.operands).mergeSort (· ≤ ·)
    let disk ← Process.disk
    let results ← operands.mapM fun operand => do
      match disk.lookup ⟨operand⟩ with
      | .ok tree => return some (operand, tree)
      | .error fault =>
        let _ ← Files.complainAbout "cannot access" operand fault
        return none
    let found := results.filterMap id
    let isDir (operand : String) : Bool := disk.isDir ⟨operand⟩
    let files := (found.filter fun (_, tree) => o.has 'd' || tree.isFile).map (·.1)
    let dirs := found.filter fun (_, tree) => !o.has 'd' && tree.isDir
    let blocks := (if files = [] then [] else [arranged o isDir files]) ++
      dirs.flatMap fun (operand, tree) => listing o (operands.length > 1) operand tree
    let lines := blocks.map fun block => "".intercalate (block.map (· ++ "\n"))
    Process.say ("\n".intercalate lines)
    return if results.any (·.isNone) then 2 else 0

/-! ## Finding files -/

/-- A condition on a file that is found. -/
inductive Condition where
  | always
  /-- Something in the path matches a pattern: its last name, or all of it. -/
  | matching (whole : Bool) (pattern : Pattern)
  | isDir
  | isFile
  | isEmpty
  | isExecutable
  | negated (c : Condition)
  | both (first second : Condition)
  | either (first second : Condition)

/-- A file that is found. -/
structure Found where
  path : String
  name : String
  tree : FileTree

/-- Whether a condition holds for a file. -/
def Condition.holds (f : Found) : Condition → Bool
  | .always => true
  | .matching whole pattern => pattern.isMatch (if whole then f.path else f.name).toList
  | .isDir => f.tree.isDir
  | .isFile => f.tree.isFile
  | .isEmpty => match f.tree with
    | .file content _ => content = []
    | .dir entries => entries.isEmpty
  | .isExecutable => match f.tree with
    | .file _ executable => executable
    | .dir _ => true
  | .negated c => !c.holds f
  | .both first second => first.holds f && second.holds f
  | .either first second => first.holds f || second.holds f

/-- What is looked for, and what is done with it. -/
structure Query where
  condition : Condition := .always
  least : Nat := 0
  most : Option Nat := none
  deletes : Bool := false
  /-- Whether a zero is written behind each path in place of a line end. -/
  endsWithZero : Bool := false

/-- The pattern of a text. -/
def patternOf (text : String) : Pattern := Pattern.ofMarked (text.toList.map (⟨·, false⟩))

/-- Read a single condition, and what follows it. -/
def primary? : List String → Option (Condition × List String)
  | "-name" :: pattern :: rest => some (.matching false (patternOf pattern), rest)
  | "-path" :: pattern :: rest => some (.matching true (patternOf pattern), rest)
  | "-type" :: "d" :: rest => some (.isDir, rest)
  | "-type" :: "f" :: rest => some (.isFile, rest)
  | "-empty" :: rest => some (.isEmpty, rest)
  | "-executable" :: rest => some (.isExecutable, rest)
  | _ => none

/-- Read what is looked for, given the alternatives before and the conditions so far. -/
def query? : Nat → Query → Option Condition → Condition → Bool → List String → Option Query
  | 0, _, _, _, _, _ => none
  | _ + 1, q, before, now, _, [] =>
    some { q with condition := before.elim now (.either · now) }
  | fuel + 1, q, before, now, negated, words =>
    let next (c : Condition) (rest : List String) : Option Query :=
      query? fuel q before (.both now (if negated then .negated c else c)) false rest
    match words with
    | "!" :: rest | "-not" :: rest => query? fuel q before now (!negated) rest
    | "-o" :: rest | "-or" :: rest =>
      query? fuel q (some (before.elim now (.either · now))) .always false rest
    | "-a" :: rest | "-and" :: rest => query? fuel q before now negated rest
    | "-print" :: rest => query? fuel q before now negated rest
    | "-print0" :: rest => query? fuel { q with endsWithZero := true } before now negated rest
    | "-delete" :: rest => query? fuel { q with deletes := true } before now negated rest
    | "-maxdepth" :: n :: rest => query? fuel { q with most := n.toNat? } before now negated rest
    | "-mindepth" :: n :: rest =>
      query? fuel { q with least := n.toNat?.getD 0 } before now negated rest
    | words => do
      let (c, rest) ← primary? words
      next c rest

mutual

/-- The files at and below a path, with their depth. -/
def walk (depth : Nat) (path name : String) : FileTree → List (Nat × Found)
  | .file content executable => [(depth, ⟨path, name, .file content executable⟩)]
  | .dir entries => (depth, ⟨path, name, .dir entries⟩) :: walkEntries (depth + 1) path entries

/-- The files at and below some entries. -/
def walkEntries (depth : Nat) (path : String) : List DirEntry → List (Nat × Found)
  | [] => []
  | entry :: rest => walkEntry depth path entry ++ walkEntries depth path rest

/-- The files at and below an entry. -/
def walkEntry (depth : Nat) (path : String) : DirEntry → List (Nat × Found)
  | ⟨name, tree⟩ =>
    walk depth (if path.toList.getLast? = some '/' then path ++ name else path ++ "/" ++ name) name tree

end

/-- Write the paths of the files that are looked for, or remove them. -/
def find : ProcessStep Status := do
  let arguments := (← read).arguments
  let isStart (word : String) : Bool := word ≠ "!" && word.toList.head? ≠ some '-'
  let starts := arguments.takeWhile isStart
  match query? (arguments.length + 1) {} none .always false (arguments.drop starts.length) with
  | none =>
    Process.complain ("unknown predicate '" ++ (arguments.drop starts.length).headD "" ++ "'")
    return 1
  | some q =>
    Files.forEach (if starts = [] then ["."] else starts) fun start => do
      match (← Process.disk).lookup ⟨start⟩ with
      | .error fault =>
        Process.complain (Files.quoted start ++ ": " ++ fault.description)
        return false
      | .ok tree =>
        let found := (walk 0 start (Files.baseName start) tree).filter fun (depth, f) =>
          q.least ≤ depth && q.most.all (depth ≤ ·) && q.condition.holds f
        if q.deletes then
          found.reverse.forM fun (_, f) => do
            let _ ← Process.onDisk do
              let location ← Disk.locating ⟨f.path⟩
              match (← get).tree.at? location with
              | some (.dir (_ :: _)) => return
              | _ => Disk.putAt location none
        else
          found.forM fun (_, f) => Process.say (f.path ++ if q.endsWithZero then "\x00" else "\n")
        return true

/-! ## Full paths -/

/-- Write the full paths of operands. What a last name is of need not be there. -/
def fullPathsOf (quiet : Bool) : ProcessStep Status :=
  Options.withOptions "femnqsz" "" fun o =>
    Files.forEach o.operands fun operand => do
      match (← Process.disk).locate ⟨operand⟩ with
      | .ok location =>
        Process.say ("/" ++ "/".intercalate location ++ "\n")
        return true
      | .error fault =>
        if !(quiet || o.has 'q') then Process.complain (operand ++ ": " ++ fault.description)
        return false

/-- Write the full paths of operands, and complain about those that have none. -/
def fullPaths : ProcessStep Status := fullPathsOf false

/-- Write the full paths of operands if that is asked for. No file stands for another one, so that there is
nothing else to write. -/
def readLink : ProcessStep Status := do
  let isFull := (← read).arguments.any fun argument => ["-f", "-e", "-m"].contains argument
  if isFull then fullPathsOf true else return 1

end ProcessorBench.Listing
