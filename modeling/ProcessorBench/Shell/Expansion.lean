import ProcessorBench.Shell.Arithmetic
import ProcessorBench.Shell.Session

/-!
# Expansion of words

A word of a script becomes the arguments that it stands for in three steps: values are put into it, what was
not quoted of them is split into fields, and fields that are patterns give way to the names of the files that
match them.
-/

namespace ProcessorBench.Shell

/-- A part of a word with values put into it. -/
inductive Expanded where
  /-- Characters that belong together. Even if there are none, they make a field. -/
  | joined (characters : List MarkedChar)
  /-- A value that is split into fields. -/
  | split (text : List Char)
  /-- An end of a field. -/
  | fieldEnd

namespace Expansion

/-- The characters of a text, all quoted or all not. -/
def marked (quoted : Bool) (text : String) : List MarkedChar := text.toList.map fun c => ⟨c, quoted⟩

/-- A value, which is split unless it is quoted. -/
def ofValue (quoted : Bool) (value : String) : List Expanded :=
  if quoted then [.joined (marked true value)] else [.split value.toList]

/-- Parts with ends of fields between them. -/
def separated : List (List Expanded) → List Expanded
  | [] => []
  | [part] => part
  | part :: rest => part ++ .fieldEnd :: separated rest

/-- All characters of expanded parts. -/
def charactersOf (parts : List Expanded) : List MarkedChar :=
  parts.flatMap fun
    | .joined characters => characters
    | .split text => text.map fun c => ⟨c, false⟩
    | .fieldEnd => [⟨' ', false⟩]

/-- All characters of expanded parts, as a text. -/
def textOf (parts : List Expanded) : String := String.ofList ((charactersOf parts).map (·.char))

/-- A text without the line ends at its end. -/
def withoutLineEnds (text : List Char) : List Char := (text.reverse.dropWhile (· = '\n')).reverse

/-- End the script with a complaint about a parameter. -/
def complainUnset {α : Type} (name message : String) : SessionStep α := do
  SessionStep.complain (name ++ ": " ++ message)
  throw (.exit 2)

/-- The value of a parameter. -/
def valueOf (name : String) : SessionStep (Option String) := do
  let s ← get
  match s.parameter? name with
  | some value => return some value
  | none =>
    if s.endsOnUnset && name ≠ "@" && name ≠ "*" then complainUnset name "parameter not set"
    else return none

/-- Put values into a word. What commands in it print is found out by running them. -/
def expand (capture : Command → SessionStep String) : Nat → Word → SessionStep (List Expanded)
  | 0, _ => return []
  | _, [] => return []
  | fuel + 1, part :: rest => do
    let first ← match part with
      | .literal text quoted => pure [.joined (marked quoted text)]
      | .substitution command quoted => pure (ofValue quoted (← capture command))
      | .arithmetic expression quoted =>
        let text := textOf (← expand capture fuel expression)
        let s ← get
        let number? (name : String) : Option Int := Arithmetic.integer? ((s.valueOf? name).getD "").toList
        match (Arithmetic.read? text.toList).bind fun e => (e.evaluate number?).run [] with
        | some (n, assigned) =>
          assigned.reverse.forM fun (name, n) => modify (Session.assign name (toString n) false)
          pure (ofValue quoted (toString n))
        | none =>
          SessionStep.complain ("arithmetic expression: " ++ text)
          throw (.exit 2)
      | .parameter name use quoted =>
        match use with
        | .value =>
          let s ← get
          if name = "@" || (name = "*" && !quoted) then
            pure (separated (s.arguments.map (ofValue quoted)))
          else pure (ofValue quoted ((← valueOf name).getD ""))
        | .length => pure (ofValue quoted (toString ((← valueOf name).getD "").length))
        | .trimmed atEnd longest pattern =>
          let pattern := Pattern.ofMarked (charactersOf (← expand capture fuel pattern))
          let text := ((← valueOf name).getD "").toList
          let shorter := if atEnd then pattern.trimEnd longest text else pattern.trimStart longest text
          pure (ofValue quoted (String.ofList shorter))
        | .fallback missing kind word =>
          let value := ((← get).parameter? name).filter fun value =>
            missing = .unset || value ≠ ""
          match kind, value with
          | .alternative, none => pure (ofValue quoted "")
          | .alternative, some _ => expand capture fuel word
          | _, some value => pure (ofValue quoted value)
          | .use, none => expand capture fuel word
          | .assign, none =>
            let value := textOf (← expand capture fuel word)
            modify (Session.assign name value false)
            pure (ofValue quoted value)
          | .complain, none =>
            let message := textOf (← expand capture fuel word)
            complainUnset name <|
              if message ≠ "" then message
              else if missing = .unset then "parameter not set"
              else "parameter not set or null"
    return first ++ (← expand capture fuel rest)

/-! ## Fields -/

/-- Fields so far, the last one first, and the one that has been started. -/
structure FieldState where
  fields : List (List MarkedChar) := []
  started : Option (List MarkedChar) := none

/-- End the field that has been started. -/
def FieldState.finish (s : FieldState) : FieldState :=
  match s.started with
  | some field => ⟨field :: s.fields, none⟩
  | none => s

/-- Whether a character is one of the separators that count as blanks. -/
def isBlankSeparator (separators : List Char) (c : Char) : Bool :=
  separators.contains c && (c = ' ' || c = '\t' || c = '\n')

/-- Go on with a character of a value. -/
def FieldState.push (separators : List Char) (s : FieldState) (c : Char) : FieldState :=
  if isBlankSeparator separators c then s.finish
  else if separators.contains c then ⟨s.started.getD [] :: s.fields, none⟩
  else { s with started := some (s.started.getD [] ++ [⟨c, false⟩]) }

/-- The fields of expanded parts. -/
def fieldsOf (separators : List Char) (parts : List Expanded) : List (List MarkedChar) :=
  let state := parts.foldl (fun s part =>
    match part with
    | .joined characters => { s with started := some (s.started.getD [] ++ characters) }
    | .split text => text.foldl (FieldState.push separators) s
    | .fieldEnd => s.finish) ({} : FieldState)
  state.finish.fields.reverse

/-- The separators of fields. -/
def separatorsOf (s : Session) : List Char := ((s.valueOf? "IFS").getD " \t\n").toList

/-! ## Names of files -/

/-- The parts of a field between its slashes. -/
def segmentsOf : List MarkedChar → List (List MarkedChar)
  | [] => [[]]
  | c :: rest =>
    if c.char = '/' then [] :: segmentsOf rest
    else
      match segmentsOf rest with
      | first :: more => (c :: first) :: more
      | [] => [[c]]

/-- The names of the entries that a segment matches. -/
def namesMatching (segment : List MarkedChar) (entries : List DirEntry) : List String :=
  let pattern := Pattern.ofMarked segment
  let isPointed := segment.head?.any (·.char = '.')
  (entries.map (·.name)).filter fun name =>
    pattern.isMatch name.toList && (isPointed || name.toList.head? ≠ some '.')

/-- The paths below a directory that segments match, with the text of the path up to there. -/
def pathsMatching (disk : Disk) : String → List (List MarkedChar) → List String
  | _, [] => []
  | front, [segment] =>
    if Pattern.isActive (Pattern.ofMarked segment) then
      match disk.lookup ⟨if front = "" then "." else front⟩ with
      | .ok (.dir entries) => (namesMatching segment entries).map (front ++ ·)
      | _ => []
    else
      let path := front ++ String.ofList (segment.map (·.char))
      if disk.exists? ⟨path⟩ then [path] else []
  | front, segment :: rest =>
    if Pattern.isActive (Pattern.ofMarked segment) then
      match disk.lookup ⟨if front = "" then "." else front⟩ with
      | .ok (.dir entries) =>
        (namesMatching segment entries).flatMap fun name => pathsMatching disk (front ++ name ++ "/") rest
      | _ => []
    else pathsMatching disk (front ++ String.ofList (segment.map (·.char)) ++ "/") rest

/-- The arguments that a field stands for: the paths that match it, or else the field itself. -/
def argumentsOf (disk : Disk) (field : List MarkedChar) : List String :=
  let text := String.ofList (field.map (·.char))
  if Pattern.isActive (Pattern.ofMarked field) then
    match pathsMatching disk "" (segmentsOf field) with
    | [] => [text]
    | paths => paths
  else [text]

end Expansion

end ProcessorBench.Shell
