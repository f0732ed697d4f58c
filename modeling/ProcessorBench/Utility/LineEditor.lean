import ProcessorBench.Text.BasicRegex
import ProcessorBench.Utility.Streams

/-!
# The line editor

The utility `sed` changes lines one after the other by the commands of a script, such as `s/a/b/g`, `2d` or
`/end/q`. `LineEditor.readScript` reads a script, and `LineEditor.edit` carries it out.
-/

namespace ProcessorBench.LineEditor

/-- Which lines a command is for. -/
inductive Address where
  | number (n : Nat)
  /-- Each line a number of lines after one. -/
  | every (first step : Nat)
  | last
  /-- So many lines after the first of a range. -/
  | after (count : Nat)
  | holding (r : BasicRegex)

/-- A piece of what is put in the place of a match. -/
inductive ReplacementPart where
  | text (c : Char)
  | matched
  | group (number : Nat)

/-- A jump to a place in the script, which has a name until all places are known. -/
abbrev Label := String

/-- What a command does with a line. -/
inductive Action where
  | substitute (r : BasicRegex) (replacement : List ReplacementPart) (first : Nat) (all prints : Bool)
  | transliterate (listed replaced : List Char)
  | delete
  /-- Drop the first of the lines that have been joined, and start again. -/
  | deleteFirst
  | print
  | printFirst
  | quit (prints : Bool) (status : Nat)
  | printNumber
  /-- Write a text after the line. -/
  | append (text : List Char)
  /-- Write a text before the line. -/
  | insert (text : List Char)
  /-- Write a text in the place of lines. -/
  | change (text : List Char)
  /-- Go on with the next line. -/
  | next
  /-- Join the next line to the line. -/
  | join
  | hold (appends : Bool)
  | fetch (appends : Bool)
  | exchange
  /-- The start of commands that belong together, of which there are so many. -/
  | enter (count : Nat)
  | label (name : Label)
  /-- Go on behind a label, or at the end of the script. -/
  | jump (target : Label)
  /-- Go on behind a label if anything has been replaced. -/
  | jumpIfChanged (target : Label)

/-- A command for the lines from one address to another, or for all others. -/
structure EditCommand where
  start : Option Address
  stop : Option Address
  negated : Bool
  action : Action

/-! ## Reading scripts -/

/-- A step in reading a script. -/
abbrev ReadStep := StateT (List Char) Option

/-- Go over blanks. -/
def skipBlanks : ReadStep Unit := modify (·.dropWhile fun c => c = ' ' || c = '\t')

/-- Read up to a delimiter. A backslash in front of the delimiter is left out, and one in front of anything
else is kept. -/
def delimited (delimiter : Char) : List Char → Option (List Char × List Char)
  | [] => none
  | '\\' :: c :: rest =>
    (delimited delimiter rest).map fun (text, rest) =>
      (if c = delimiter then c :: text else '\\' :: c :: text, rest)
  | c :: rest =>
    if c = delimiter then some ([], rest)
    else (delimited delimiter rest).map fun (text, rest) => (c :: text, rest)

/-- Read up to a delimiter, in a step. -/
def readDelimited (delimiter : Char) : ReadStep (List Char) := do
  match delimited delimiter (← get) with
  | some (text, rest) =>
    set rest
    return text
  | none => failure

/-- The expression of a text, in the one spelling or the other. -/
def expression (extended : Bool) (text : List Char) : ReadStep BasicRegex :=
  (BasicRegex.read? (if extended then BasicRegex.ofExtended text else text) : Option BasicRegex)

/-- Read a number. -/
def readNumber : ReadStep Nat := do
  let digits := (← get).takeWhile (·.isDigit)
  modify (·.drop digits.length)
  return digits.foldl (fun n c => n * 10 + (c.toNat - '0'.toNat)) 0

/-- Read the expression of an address, after the delimiter in front of it. -/
def readHolding (extended : Bool) (delimiter : Char) : ReadStep Address := do
  let r ← expression extended (← readDelimited delimiter)
  match ← get with
  | 'I' :: rest =>
    set rest
    return .holding r.folded
  | _ => return .holding r

/-- Read an address, if there is one. -/
def readAddress (extended : Bool) : ReadStep (Option Address) := do
  match ← get with
  | '$' :: rest =>
    set rest
    return some .last
  | '/' :: rest =>
    set rest
    return some (← readHolding extended '/')
  | '\\' :: delimiter :: rest =>
    set rest
    return some (← readHolding extended delimiter)
  | '+' :: rest =>
    set rest
    return some (.after (← readNumber))
  | c :: _ =>
    if c.isDigit then
      let n ← readNumber
      match ← get with
      | '~' :: rest =>
        set rest
        return some (.every n (← readNumber))
      | _ => return some (.number n)
    else return none
  | [] => return none

/-- What is put in the place of a match. -/
def replacementOf : List Char → List ReplacementPart
  | '\\' :: 'n' :: rest => .text '\n' :: replacementOf rest
  | '\\' :: 't' :: rest => .text '\t' :: replacementOf rest
  | '\\' :: c :: rest =>
    (if c.isDigit then .group (c.toNat - '0'.toNat) else .text c) :: replacementOf rest
  | '&' :: rest => .matched :: replacementOf rest
  | c :: rest => .text c :: replacementOf rest
  | [] => []

/-- The characters of a text in which some are written with backslashes. -/
def unescaped : List Char → List Char
  | '\\' :: 'n' :: rest => '\n' :: unescaped rest
  | '\\' :: 't' :: rest => '\t' :: unescaped rest
  | '\\' :: c :: rest => c :: unescaped rest
  | c :: rest => c :: unescaped rest
  | [] => []

/-- A text up to the end of the line, which a backslash can take its meaning from. -/
def textLine : List Char → List Char × List Char
  | '\\' :: c :: rest =>
    let (text, rest) := textLine rest
    (c :: text, rest)
  | '\n' :: rest => ([], '\n' :: rest)
  | c :: rest =>
    let (text, rest) := textLine rest
    (c :: text, rest)
  | [] => ([], [])

/-- Read a text that is written, which starts in the same line or in the next one. -/
def readText : ReadStep (List Char) := do
  skipBlanks
  match ← get with
  | '\\' :: '\n' :: rest => set rest
  | '\\' :: rest => set rest
  | _ => pure ()
  let (text, rest) := textLine (← get)
  set rest
  return text

/-- Read the name of a label. -/
def readLabel : ReadStep Label := do
  skipBlanks
  let name := (← get).takeWhile fun c => !(c = ';' || c = '\n' || c = ' ' || c = '\x7d')
  modify (·.drop name.length)
  return String.ofList name

/-- The actions of a single letter. -/
def plainAction? : Char → Option Action
  | 'd' => some .delete
  | 'D' => some .deleteFirst
  | 'p' => some .print
  | 'P' => some .printFirst
  | '=' => some .printNumber
  | 'n' => some .next
  | 'N' => some .join
  | 'h' => some (.hold false)
  | 'H' => some (.hold true)
  | 'g' => some (.fetch false)
  | 'G' => some (.fetch true)
  | 'x' => some .exchange
  | _ => none

/-- Read the rest of a replacement, after its first letter. -/
def readSubstitution (extended : Bool) (delimiter : Char) : ReadStep Action := do
  let r ← expression extended (← readDelimited delimiter)
  let replacement := replacementOf (← readDelimited delimiter)
  let flags := (← get).takeWhile fun c => c.isDigit || "gpiI".contains c
  modify (·.drop flags.length)
  let first := (String.ofList (flags.filter (·.isDigit))).toNat?.getD 1
  let r := if flags.contains 'I' || flags.contains 'i' then r.folded else r
  return .substitute r replacement first (flags.contains 'g') (flags.contains 'p')

/-- Read the action of a command, which is not the start of several. -/
def readAction (extended : Bool) : ReadStep Action := do
  match ← get with
  | 's' :: delimiter :: rest =>
    set rest
    readSubstitution extended delimiter
  | 'y' :: delimiter :: rest =>
    set rest
    let listed ← readDelimited delimiter
    return .transliterate (unescaped listed) (unescaped (← readDelimited delimiter))
  | c :: rest =>
    set rest
    match plainAction? c with
    | some action => return action
    | none =>
      match c with
      | 'q' =>
        skipBlanks
        return .quit true (← readNumber)
      | 'Q' =>
        skipBlanks
        return .quit false (← readNumber)
      | 'a' => return .append (← readText)
      | 'i' => return .insert (← readText)
      | 'c' => return .change (← readText)
      | ':' => return .label (← readLabel)
      | 'b' => return .jump (← readLabel)
      | 't' => return .jumpIfChanged (← readLabel)
      | _ => failure
  | [] => failure

/-- Whether a character stands between commands. -/
def isSeparator (c : Char) : Bool := c = ';' || c = '\n' || c = ' ' || c = '\t'

/-- Go over a comment, if there is one. -/
def skipComment : ReadStep Unit := do
  match ← get with
  | '#' :: rest => set (rest.dropWhile (· ≠ '\n'))
  | _ => return

/-- Read commands up to the end of the script, or to a closing brace. -/
def readCommands (extended : Bool) : Nat → ReadStep (List EditCommand)
  | 0 => failure
  | fuel + 1 => do
    modify (·.dropWhile isSeparator)
    match ← get with
    | [] | '\x7d' :: _ => return []
    | '#' :: _ =>
      skipComment
      readCommands extended fuel
    | _ =>
      let start ← readAddress extended
      let stop ← match ← get with
        | ',' :: rest =>
          set (rest.dropWhile (· = ' '))
          readAddress extended
        | _ => pure none
      skipBlanks
      let negated ← match ← get with
        | '!' :: rest =>
          set (rest.dropWhile (· = ' '))
          pure true
        | _ => pure false
      let commands ← match ← get with
        | '\x7b' :: rest =>
          set rest
          let inner ← readCommands extended fuel
          match ← get with
          | '\x7d' :: rest => set rest
          | _ => failure
          pure (⟨start, stop, negated, .enter inner.length⟩ :: inner)
        | _ => pure [⟨start, stop, negated, ← readAction extended⟩]
      skipBlanks
      skipComment
      match ← get with
      | c :: _ =>
        if isSeparator c || c = '\x7d' then return commands ++ (← readCommands extended fuel) else failure
      | [] => return commands

/-- Read a script. -/
def readScript (extended : Bool) (script : String) : Option (List EditCommand) :=
  match (readCommands extended (script.length + 1)).run (Latin1.ofString script) with
  | some (commands, []) => some commands
  | _ => none

/-! ## Editing -/

/-- A line that is written. The last one of all may lack its end. -/
structure WrittenLine where
  text : List Char
  isEnded : Bool

/-- The bytes of lines that are written one after the other. -/
def bytesOf : List WrittenLine → Bytes
  | [] => []
  | [last] => Latin1.encode last.text ++ (if last.isEnded then [0x0a] else [])
  | line :: more => Latin1.encode line.text ++ 0x0a :: bytesOf more

/-- The line that is worked on, and what has been done so far. -/
structure EditState where
  number : Nat := 0
  line : List Char := []
  /-- The lines that have not been read. -/
  rest : List (List Char)
  /-- Whether the last line of the text has an end. -/
  isEnded : Bool
  held : List Char := []
  /-- The lines written, the last one first. -/
  written : List WrittenLine := []
  /-- What is written after the line, the last first. -/
  queued : List (List Char) := []
  /-- The commands, by number, whose range has begun, with the line it began in. -/
  opened : List (Nat × Nat) := []
  /-- Whether anything has been replaced in the line. -/
  changed : Bool := false
  /-- The status to end with, once the end has come. -/
  ended : Option Nat := none

namespace EditState

/-- Whether the line is the last one. -/
def isLast (s : EditState) : Bool := s.rest.isEmpty

/-- Write a text. -/
def write (s : EditState) (text : List Char) : EditState := { s with written := ⟨text, true⟩ :: s.written }

/-- Write a part of the line, which lacks its end where the text does. -/
def writeLine (s : EditState) (text : List Char) : EditState :=
  { s with written := ⟨text, s.isEnded || !s.isLast⟩ :: s.written }

/-- Write what belongs after the line. -/
def flush (s : EditState) : EditState :=
  { s.queued.reverse.foldl write s with queued := [] }

/-- Take the next line, if there is one. -/
def advance? (s : EditState) : Option EditState :=
  match s.rest with
  | line :: rest => some { s.flush with number := s.number + 1, line, rest }
  | [] => none

end EditState

/-- Whether an address is that of the line, in a range that began in some line. -/
def Address.isAt (s : EditState) (first : Nat) : Address → Bool
  | .number n => s.number = n
  | .every first step => if step = 0 then s.number = first else s.number ≥ first && (s.number - first) % step = 0
  | .last => s.isLast
  | .after count => s.number ≥ first + count
  | .holding r => (r.find? s.line).isSome

/-- Whether an address is that in front of the first line. -/
def Address.isFront : Address → Bool
  | .number n => n = 0
  | _ => false

/-- Whether a range that begins in the line ends there too. Only one that begins in front of the first line can
end at a match in it. -/
def endsAtOnce (s : EditState) (start stop : Address) : Bool :=
  match stop with
  | .number n => n ≤ s.number
  | .after count => count = 0
  | stop => s.isLast || (start.isFront && stop.isAt s 0)

/-- Whether a range that began in some line ended in an earlier line than the present one. -/
def isPast (s : EditState) : Address → Bool
  | .number n => n < s.number
  | _ => false

/-- Whether a command is for the line, whether the line is the last one that it is for, and the ranges that are
open after it. -/
def covers (index : Nat) (c : EditCommand) (s : EditState) : Bool × Bool × List (Nat × Nat) :=
  match c.start, c.stop with
  | none, _ => (true, true, s.opened)
  | some start, none => (start.isAt s 0, true, s.opened)
  | some start, some stop =>
    let others := s.opened.filter (·.1 ≠ index)
    match s.opened.lookup index with
    | some first =>
      if isPast s stop then (start.isAt s 0, true, others)
      else if stop.isAt s first || s.isLast then (true, true, others)
      else (true, false, s.opened)
    | none =>
      if (start.isFront && s.number = 1) || start.isAt s 0 then
        if endsAtOnce s start stop then (true, true, others)
        else (true, false, (index, s.number) :: others)
      else (false, true, others)

/-- What stands in the place of a match. -/
def replace (m : BasicRegex.Match) (parts : List ReplacementPart) : List Char :=
  parts.flatMap fun
    | .text c => [c]
    | .matched => m.matched
    | .group 0 => m.matched
    | .group n => (m.groups.lookup n).getD []

/-- What is left of a line with matches replaced, from one of them on, and whether any is. An empty match right
behind another one does not count. -/
def substitute (r : BasicRegex) (parts : List ReplacementPart) (all : Bool) :
    Nat → Nat → Bool → Bool → List Char → List Char × Bool
  | 0, _, _, _, line => (line, false)
  | fuel + 1, skipped, isStart, isBehind, line =>
    match r.findFrom isStart [] line with
    | none => (line, false)
    | some m =>
      let isIdle := isBehind && m.before = [] && m.matched = []
      let isReplaced := !isIdle && skipped = 0
      let new := if isReplaced then replace m parts else m.matched
      if isReplaced && !all then (m.before ++ new ++ m.after, true)
      else
        let (kept, rest) := if m.matched = [] then (m.after.take 1, m.after.drop 1) else ([], m.after)
        let (more, changed) :=
          if m.after = [] then ([], false)
          else substitute r parts all fuel (if isIdle then skipped else skipped - 1) false
            (m.matched ≠ []) rest
        (m.before ++ new ++ kept ++ more, isReplaced || changed)

/-- What comes after a command. -/
inductive Flow where
  /-- The command of a number. -/
  | command (index : Nat)
  /-- The end of the script. -/
  | scriptEnd
  /-- The next line, without writing the present one. -/
  | nextLine

/-- The place behind a label, or the end of the script. -/
def target (commands : List EditCommand) (name : Label) : Flow :=
  let isTarget (c : EditCommand) : Bool := match c.action with
    | .label other => name = other
    | _ => false
  match commands.findIdx? isTarget with
  | some index => if name = "" then .scriptEnd else .command (index + 1)
  | none => .scriptEnd

/-- Carry out the action of a command that is for the line. -/
def perform (commands : List EditCommand) (quiet : Bool) (index : Nat) (c : EditCommand) (isEnd : Bool)
    (s : EditState) : EditState × Flow :=
  let next := Flow.command (index + 1)
  match c.action with
  | .substitute r parts first all prints =>
    let (line, changed) := substitute r parts all (s.line.length + 2) (first - 1) true false s.line
    let s := { s with line, changed := s.changed || changed }
    (if prints && changed then s.writeLine line else s, next)
  | .transliterate listed replaced =>
    ({ s with line := s.line.map fun c =>
        if listed.contains c then replaced.getD (listed.idxOf c) c else c }, next)
  | .delete => (s, .nextLine)
  | .deleteFirst =>
    match s.line.dropWhile (· ≠ '\n') with
    | _ :: rest => ({ s.flush with line := rest }, .command 0)
    | [] => (s, .nextLine)
  | .print => (s.writeLine s.line, next)
  | .printFirst => (s.write (s.line.takeWhile (· ≠ '\n')), next)
  | .quit prints status =>
    let s := if prints && !quiet then s.writeLine s.line else s
    ({ (if prints then s.flush else s) with ended := some status }, .nextLine)
  | .printNumber => (s.write (toString s.number).toList, next)
  | .append text => ({ s with queued := text :: s.queued }, next)
  | .insert text => (s.write text, next)
  | .change text => (if isEnd then s.write text else s, .nextLine)
  | .next =>
    let written := if quiet then s else s.writeLine s.line
    match written.advance? with
    | some s => (s, next)
    | none => ({ (if quiet then s else written) with ended := some 0 }, .nextLine)
  | .join =>
    match s.advance? with
    | some s' => ({ s' with line := s.line ++ '\n' :: s'.line }, next)
    | none => ({ (if quiet then s else s.writeLine s.line) with ended := some 0 }, .nextLine)
  | .hold appends => ({ s with held := if appends then s.held ++ '\n' :: s.line else s.line }, next)
  | .fetch appends => ({ s with line := if appends then s.line ++ '\n' :: s.held else s.held }, next)
  | .exchange => ({ s with line := s.held, held := s.line }, next)
  | .enter _ | .label _ => (s, next)
  | .jump name => (s, target commands name)
  | .jumpIfChanged name =>
    if s.changed then ({ s with changed := false }, target commands name) else (s, next)

/-- Carry out the commands for a line, from one of them on. -/
def performFrom (commands : List EditCommand) (quiet : Bool) : Nat → Nat → EditState → EditState
  | 0, _, s => { s with ended := some 1 }
  | fuel + 1, index, s =>
    let finished := if quiet then s else s.writeLine s.line
    match commands[index]? with
    | none => finished
    | some c =>
      let (isCovered, isEnd, opened) := covers index c s
      let s := { s with opened }
      if isCovered = c.negated then
        let skipped := match c.action with
          | .enter count => count
          | _ => 0
        performFrom commands quiet fuel (index + 1 + skipped) s
      else
        match perform commands quiet index c (isEnd || c.negated) s with
        | (s, .command index) => performFrom commands quiet fuel index s
        | (s, .scriptEnd) => if quiet then s else s.writeLine s.line
        | (s, .nextLine) => s

/-- How many commands may be carried out for a line, so that a script that would never end is ended. -/
def commandLimit : Nat := 1000000

/-- Work on the lines that are left, one after the other. -/
def editFrom (commands : List EditCommand) (quiet : Bool) : Nat → EditState → EditState
  | 0, s => s
  | fuel + 1, s =>
    if s.ended.isSome then s
    else
      match s.advance? with
      | none => s
      | some s =>
        editFrom commands quiet fuel
          (performFrom commands quiet commandLimit 0 { s with changed := false }).flush

/-- Edit some texts as one. The result is what is written, and the status to end with. -/
def edit (commands : List EditCommand) (quiet : Bool) (texts : List Streams.LineText) : Bytes × Status :=
  let lines := texts.flatMap (·.lines)
  let isEnded := texts.getLast?.all (·.isEnded)
  let s := editFrom commands quiet (lines.length + 1) { rest := lines, isEnded }
  (bytesOf s.written.reverse, s.ended.getD 0)

/-- Edit files in their places. What they were is kept under their names with something behind them, if that
is asked for. -/
def editInPlace (commands : List EditCommand) (quiet : Bool) (behind : String) (operands : List String) :
    ProcessStep Status := do
  Streams.forEach operands fun operand content => do
    let (bytes, _) := edit commands quiet [Streams.LineText.ofBytes content]
    if behind ≠ "" then
      let _ ← Process.onDisk (Disk.write ⟨operand ++ behind⟩ content)
    let _ ← Process.onDisk (Disk.write ⟨operand⟩ bytes)

/-- The scripts that the options give, each as a text or as a file. Nothing if one cannot be read. -/
def scriptsOf (o : Options) : ProcessStep (Option (List String)) := do
  let scripts ← (o.letters.filter fun (letter, _) => letter = 'e' || letter = 'f').mapM
    fun (letter, value) => do
      if letter = 'e' then return some value
      else
        match (← Process.disk).read ⟨value⟩ with
        | .ok content =>
          let lines := (Streams.LineText.ofBytes content).lines
          return some (Utf8.decodeLossy (Latin1.encode (['\n'].intercalate lines)))
        | .error fault =>
          Process.complain ("couldn't open file " ++ value ++ ": " ++ fault.description)
          return none
  return scripts.mapM id

/-- Edit the operands, or the input, by the scripts that are given. -/
def run : ProcessStep Status :=
  Options.withAttachedOptions "nErsuz" "ef" "i" fun o => do
    let some scripts ← scriptsOf o | return 4
    let (script, operands) := match scripts, o.operands with
      | [], script :: operands => (script, operands)
      | [], [] => ("", [])
      | scripts, operands => ("\n".intercalate scripts, operands)
    match readScript (o.has 'E' || o.has 'r') script with
    | none =>
      Process.complain "-e expression #1, char 1: unknown command"
      return 1
    | some commands =>
      if let some behind := o.value? 'i' then editInPlace commands (o.has 'n') behind operands
      else
        let (contents, complete) ← Streams.contentsOf operands
        let texts := contents.map fun (_, content) => Streams.LineText.ofBytes content
        let (bytes, status) := edit commands (o.has 'n') (texts.filter (·.lines ≠ []))
        Process.write Process.standardOutput bytes
        return if status ≠ 0 then status else if complete then 0 else 2

end ProcessorBench.LineEditor
