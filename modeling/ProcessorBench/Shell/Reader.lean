import ProcessorBench.Shell.Script

/-!
# Reading scripts

Scripts are read one complete command at a time, as they are run, so that what stands in front of a mistake
has an effect. `Shell.nextCommand` reads one. Each function has a bound on its depth, which the length of
the script gives.
-/

namespace ProcessorBench.Shell

/-- The part of a script that has not been read. -/
structure Source where
  rest : List Char
  /-- The number of the line that is read. -/
  line : Nat := 1

/-- Where a script is no script. -/
structure ScriptError where
  line : Nat
  message : String

/-- A step in reading a script. -/
abbrev ReadStep := StateT Source (Except ScriptError)

namespace Reader

/-- Stop reading. -/
def fail {α : Type} (message : String) : ReadStep α := do
  throw ⟨(← get).line, "Syntax error: " ++ message⟩

/-- The characters that come next. -/
def ahead : ReadStep (List Char) := return (← get).rest

/-- Go over some characters. -/
def skip (count : Nat) : ReadStep Unit := modify fun s =>
  { rest := s.rest.drop count, line := s.line + (s.rest.take count).count '\n' }

/-- Take the characters of a kind that come next. -/
def takeWhile (accepts : Char → Bool) : ReadStep String := do
  let text := (← ahead).takeWhile accepts
  skip text.length
  return String.ofList text

/-- Whether a character ends a word. -/
def isDelimiter (c : Char) : Bool := " \t\n;&|<>()".contains c

/-- Whether a character can be in a name. -/
def isNameChar (c : Char) : Bool := c.isAlphanum || c = '_'

/-- Whether a text is a name. -/
def isName (text : String) : Bool :=
  match text.toList with
  | c :: rest => isNameChar c && !c.isDigit && rest.all isNameChar
  | [] => false

/-- How long the blanks, the joined lines and the comment at the start of a text are. -/
def blankLength : List Char → Nat
  | ' ' :: rest | '\t' :: rest => blankLength rest + 1
  | '\\' :: '\n' :: rest => blankLength rest + 2
  | '#' :: rest => (rest.takeWhile (· ≠ '\n')).length + 1
  | _ => 0

/-- Go over blanks and comments in a line. -/
def skipBlanks : ReadStep Unit := do skip (blankLength (← ahead))

/-- Go over blanks, comments and line ends. -/
def skipLines : Nat → ReadStep Unit
  | 0 => return
  | fuel + 1 => do
    skipBlanks
    match ← ahead with
    | '\n' :: _ =>
      skip 1
      skipLines fuel
    | _ => return

/-- The words with a meaning of their own at the start of a command. -/
def reservedWords : List String :=
  ["if", "then", "else", "elif", "fi", "do", "done", "case", "esac", "while", "until", "for", "\x7b", "\x7d",
   "!", "in"]

/-- The reserved word that comes next, if one does. -/
def reserved? : ReadStep (Option String) := do
  let text := String.ofList ((← ahead).takeWhile (!isDelimiter ·))
  return if reservedWords.contains text then some text else none

/-- Go over a reserved word that has to come next. -/
def expect (word : String) : ReadStep Unit := do
  skipBlanks
  if (← reserved?) = some word then skip word.length
  else fail ("expecting \"" ++ word ++ "\"")

/-- Whether a text starts with another. -/
def startsWith (front : String) (text : List Char) : Bool := front.toList.isPrefixOf text

/-- The text of a here-document, up to the line that ends it, and what follows. -/
def hereText (stop : String) (dropTabs : Bool) : List (List Char) → List (List Char) × List (List Char)
  | [] => ([], [])
  | line :: rest =>
    let line := if dropTabs then line.dropWhile (· = '\t') else line
    if String.ofList line = stop then ([], rest)
    else
      let (text, rest) := hereText stop dropTabs rest
      (line :: text, rest)

/-- The lines of a text, without their ends. -/
def linesOf : List Char → List (List Char)
  | [] => [[]]
  | c :: rest =>
    if c = '\n' then [] :: linesOf rest
    else
      match linesOf rest with
      | line :: more => (c :: line) :: more
      | [] => [[c]]

/-- Take a here-document out of the script behind the line that is read. -/
def takeHereText (stop : String) (dropTabs : Bool) : ReadStep String := do
  let s ← get
  let line := s.rest.takeWhile (· ≠ '\n')
  let (text, rest) := hereText stop dropTabs (linesOf (s.rest.drop (line.length + 1)))
  set { s with rest := line ++ '\n' :: ['\n'].intercalate rest }
  return String.ofList (text.flatMap (· ++ ['\n']))

/-- The text between backquotes, with the backslashes for quoting left out, and what follows. -/
def backquoted : List Char → Option (List Char × List Char)
  | [] => none
  | '\x60' :: rest => some ([], rest)
  | '\\' :: c :: rest =>
    (backquoted rest).map fun (text, rest) =>
      (if "\x60\\$".contains c then c :: text else '\\' :: c :: text, rest)
  | c :: rest => (backquoted rest).map fun (text, rest) => (c :: text, rest)

/-- The length of an expression up to the two parentheses that end it. -/
def arithmeticLength : Nat → List Char → Option Nat
  | _, [] => none
  | 0, ')' :: ')' :: _ => some 0
  | depth, '(' :: rest => (arithmeticLength (depth + 1) rest).map (· + 1)
  | depth, ')' :: rest => (arithmeticLength (depth - 1) rest).map (· + 1)
  | depth, _ :: rest => (arithmeticLength depth rest).map (· + 1)

/-- The character that ends a text in which parts are read. -/
inductive Ending where
  /-- A word ends with a delimiter. -/
  | delimiter
  /-- Text in quotation marks. -/
  | quote
  /-- The word in a parameter. -/
  | brace (quoted : Bool)
  /-- The whole text. -/
  | text
deriving DecidableEq

/-- Whether the parts of a text count as quoted. -/
def Ending.isQuoted : Ending → Bool
  | .delimiter => false
  | .quote | .text => true
  | .brace quoted => quoted

/-- Whether a text ends here. -/
def Ending.isAt (e : Ending) (c : Char) : Bool :=
  match e with
  | .delimiter => isDelimiter c
  | .quote => c = '"'
  | .brace _ => c = '\x7d'
  | .text => false

/-- Whether a character stands for itself in a text. -/
def Ending.isPlain (e : Ending) (c : Char) : Bool :=
  !e.isAt c && c ≠ '\\' && c ≠ '$' && c ≠ '\x60' &&
    !(c = '"' && e ≠ .text) && !(c = '\'' && !e.isQuoted)

/-- Read the name of a parameter that is not in braces. -/
def readShortName : ReadStep (Option String) := do
  match ← ahead with
  | c :: _ =>
    if c.isDigit || "@*#?$!-".contains c then
      skip 1
      return some (String.singleton c)
    else if isNameChar c then return some (← takeWhile isNameChar)
    else return none
  | [] => return none

/-- The fallback that a character stands for. -/
def fallback? : Char → Option Fallback
  | '-' => some .use
  | '=' => some .assign
  | '+' => some .alternative
  | '?' => some .complain
  | _ => none

/-- The operators that stand between words, the long ones first. -/
def redirectionOperators : List (String × RedirectionKind) :=
  [("<<", .text), (">>", .append), ("<&", .duplicate), (">&", .duplicate), (">|", .output),
   ("<>", .input), ("<", .input), (">", .output)]

/-- Read a parenthesis that has to come next. -/
def readClosing : ReadStep Unit := do
  match ← ahead with
  | ')' :: _ => skip 1
  | _ => fail "expecting \")\""

/-- Whether the commands of a list end here. -/
def isListEnd : ReadStep Bool := do
  let text ← ahead
  if text.isEmpty || startsWith ")" text || startsWith ";;" text then return true
  else
    return match ← reserved? with
      | some word => ["then", "else", "elif", "fi", "do", "done", "esac", "\x7d"].contains word
      | none => false

mutual

/-- Read the parts of a text up to its end. -/
def readParts : Nat → Ending → ReadStep Word
  | 0, _ => fail "too deep"
  | fuel + 1, ending => do
    match ← ahead with
    | [] => return []
    | c :: rest =>
      if ending.isAt c then return []
      else if ending.isPlain c then
        let text ← takeWhile ending.isPlain
        return .literal text ending.isQuoted :: (← readParts fuel ending)
      else if c = '\\' then
        match rest with
        | [] =>
          skip 1
          return [.literal "\\" true]
        | d :: _ =>
          skip 2
          if d = '\n' then readParts fuel ending
          else
            let keeps := ending.isQuoted && !"$\x60\"\\".contains d && !(ending = .brace true && d = '\x7d')
            let text := if keeps then String.ofList ['\\', d] else String.singleton d
            return .literal text true :: (← readParts fuel ending)
      else if c = '\'' then
        skip 1
        let text ← takeWhile (· ≠ '\'')
        if (← ahead).isEmpty then fail "Unterminated quoted string"
        skip 1
        return .literal text true :: (← readParts fuel ending)
      else if c = '"' then
        skip 1
        let inner ← readParts fuel .quote
        if (← ahead).isEmpty then fail "Unterminated quoted string"
        skip 1
        let inner := if inner.isEmpty then [.literal "" true] else inner
        return inner ++ (← readParts fuel ending)
      else if c = '\x60' then
        match backquoted rest with
        | none => fail "EOF in backquote substitution"
        | some (text, after) =>
          skip (rest.length + 1 - after.length)
          let saved ← get
          set { saved with rest := text }
          let command ← readScript fuel
          set saved
          return .substitution command ending.isQuoted :: (← readParts fuel ending)
      else
        skip 1
        let part ← readDollar fuel ending.isQuoted
        return part :: (← readParts fuel ending)

/-- Read what a dollar sign stands in front of. -/
def readDollar : Nat → Bool → ReadStep WordPart
  | 0, _ => fail "too deep"
  | fuel + 1, quoted => do
    match ← ahead with
    | '(' :: '(' :: rest =>
      match arithmeticLength 0 rest with
      | none => fail "Missing '))'"
      | some length =>
        skip 2
        let saved ← get
        set { saved with rest := saved.rest.take length }
        let expression ← readParts fuel .text
        set saved
        skip (length + 2)
        return .arithmetic expression quoted
    | '(' :: _ =>
      skip 1
      let command ← readList fuel
      readClosing
      return .substitution command quoted
    | '\x7b' :: _ =>
      skip 1
      readBraces fuel quoted
    | _ =>
      match ← readShortName with
      | some name => return .parameter name .value quoted
      | none => return .literal "$" quoted

/-- Read a parameter after its opening brace. -/
def readBraces : Nat → Bool → ReadStep WordPart
  | 0, _ => fail "too deep"
  | fuel + 1, quoted => do
    let isLength := match ← ahead with
      | '#' :: c :: _ => isNameChar c || (c ≠ '\x7d' && "@*?$!".contains c)
      | _ => false
    if isLength then skip 1
    let name ← match ← ahead with
      | c :: _ =>
        if c.isDigit then takeWhile (·.isDigit)
        else match ← readShortName with
          | some name => pure name
          | none => fail "Bad substitution"
      | [] => fail "Missing '\x7d'"
    let use : ParameterUse ← match ← ahead with
      | '\x7d' :: _ => pure (if isLength then .length else .value)
      | '%' :: '%' :: _ =>
        skip 2
        pure (.trimmed true true (← readParts fuel (.brace false)))
      | '%' :: _ =>
        skip 1
        pure (.trimmed true false (← readParts fuel (.brace false)))
      | '#' :: '#' :: _ =>
        skip 2
        pure (.trimmed false true (← readParts fuel (.brace false)))
      | '#' :: _ =>
        skip 1
        pure (.trimmed false false (← readParts fuel (.brace false)))
      | ':' :: c :: _ =>
        match fallback? c with
        | some kind =>
          skip 2
          pure (.fallback .unsetOrEmpty kind (← readParts fuel (.brace quoted)))
        | none => fail "Bad substitution"
      | c :: _ =>
        match fallback? c with
        | some kind =>
          skip 1
          pure (.fallback .unset kind (← readParts fuel (.brace quoted)))
        | none => fail "Bad substitution"
      | [] => fail "Missing '\x7d'"
    match ← ahead with
    | '\x7d' :: _ =>
      skip 1
      return .parameter name use quoted
    | _ => fail "Missing '\x7d'"

/-- Read the redirections that come next. -/
def readRedirections : Nat → ReadStep (List Redirection)
  | 0 => fail "too deep"
  | fuel + 1 => do
    skipBlanks
    match ← readRedirection? fuel with
    | some redirection => return redirection :: (← readRedirections fuel)
    | none => return []

/-- Read a redirection, if one comes next. -/
def readRedirection? : Nat → ReadStep (Option Redirection)
  | 0 => fail "too deep"
  | fuel + 1 => do
    let text ← ahead
    let digits := text.takeWhile (·.isDigit)
    match redirectionOperators.find? fun (operator, _) => startsWith operator (text.drop digits.length) with
    | none => return none
    | some (operator, kind) =>
      skip (digits.length + operator.length)
      let usual := if operator.toList.head? = some '<' then 0 else 1
      let descriptor := (String.ofList digits).toNat?.getD usual
      if kind = .text then
        let dropTabs ← match ← ahead with
          | '-' :: _ =>
            skip 1
            pure true
          | _ => pure false
        skipBlanks
        let stop ← readParts fuel .delimiter
        let isQuoted := stop.any fun
          | .literal _ quoted => quoted
          | _ => false
        let stopText := String.join (stop.map fun
          | .literal text _ => text
          | _ => "")
        let content ← takeHereText stopText dropTabs
        if isQuoted then return some (.mk descriptor kind [.literal content true])
        else
          let saved ← get
          set { saved with rest := content.toList }
          let target ← readParts fuel .text
          set saved
          return some (.mk descriptor kind target)
      else
        skipBlanks
        let target ← readParts fuel .delimiter
        if target.isEmpty then fail "redirection unexpected"
        return some (.mk descriptor kind target)

/-- Read the assignments, words and redirections of a simple command. -/
def readWords : Nat → Bool → ReadStep (List (String × Word) × List Word × List Redirection)
  | 0, _ => fail "too deep"
  | fuel + 1, mayAssign => do
    skipBlanks
    match ← readRedirection? fuel with
    | some redirection =>
      let (assignments, words, redirections) ← readWords fuel mayAssign
      return (assignments, words, redirection :: redirections)
    | none =>
      match ← ahead with
      | [] => return ([], [], [])
      | c :: text =>
        if isDelimiter c then return ([], [], [])
        else
          let name := String.ofList ((c :: text).takeWhile isNameChar)
          if mayAssign && isName name && (text.drop (name.length - 1)).head? = some '=' then
            skip (name.length + 1)
            let value ← readParts fuel .delimiter
            let (assignments, words, redirections) ← readWords fuel true
            return ((name, value) :: assignments, words, redirections)
          else
            let word ← readParts fuel .delimiter
            let (assignments, words, redirections) ← readWords fuel false
            return (assignments, word :: words, redirections)

/-- Read the words of a loop. -/
def readPlainWords : Nat → ReadStep (List Word)
  | 0 => fail "too deep"
  | fuel + 1 => do
    skipBlanks
    match ← ahead with
    | [] => return []
    | c :: _ =>
      if isDelimiter c then return []
      else
        let word ← readParts fuel .delimiter
        return word :: (← readPlainWords fuel)

/-- Read the end of a branch, after what is done if its condition holds. -/
def readBranchEnd : Nat → ReadStep Command
  | 0 => fail "too deep"
  | fuel + 1 => do
    match ← reserved? with
    | some "elif" =>
      skip 4
      let condition ← readList fuel
      expect "then"
      let consequent ← readList fuel
      return .branch condition consequent (← readBranchEnd fuel)
    | some "else" =>
      skip 4
      let otherwise ← readList fuel
      expect "fi"
      return otherwise
    | _ =>
      expect "fi"
      return .sequence []

/-- Read the patterns of a case. -/
def readPatterns : Nat → ReadStep (List Word)
  | 0 => fail "too deep"
  | fuel + 1 => do
    skipBlanks
    let pattern ← readParts fuel .delimiter
    skipBlanks
    match ← ahead with
    | '|' :: _ =>
      skip 1
      return pattern :: (← readPatterns fuel)
    | _ =>
      readClosing
      return [pattern]

/-- Read the cases of a choice, up to its end. -/
def readCases : Nat → ReadStep (List (List Word × Command))
  | 0 => fail "too deep"
  | fuel + 1 => do
    skipLines fuel
    if (← reserved?) = some "esac" then
      skip 4
      return []
    match ← ahead with
    | '(' :: _ => skip 1
    | _ => pure ()
    let patterns ← readPatterns fuel
    let body ← readList fuel
    match ← ahead with
    | ';' :: ';' :: _ =>
      skip 2
      return (patterns, body) :: (← readCases fuel)
    | _ =>
      expect "esac"
      return [(patterns, body)]

/-- Read the body of a loop. -/
def readBody : Nat → ReadStep Command
  | 0 => fail "too deep"
  | fuel + 1 => do
    expect "do"
    let body ← readList fuel
    expect "done"
    return body

/-- Read a loop over words, after its first word. -/
def readForEach : Nat → ReadStep Command
  | 0 => fail "too deep"
  | fuel + 1 => do
    skipBlanks
    let name ← takeWhile isNameChar
    if !isName name then fail "Bad for loop variable"
    skipLines fuel
    let words ← if (← reserved?) = some "in" then do
        skip 2
        let words ← readPlainWords fuel
        pure (some words)
      else pure none
    skipBlanks
    match ← ahead with
    | ';' :: _ => skip 1
    | _ => pure ()
    skipLines fuel
    return .forEach name words (← readBody fuel)

/-- Read a command that a reserved word starts, after that word. -/
def readCompound : Nat → String → ReadStep Command
  | 0, _ => fail "too deep"
  | fuel + 1, word => do
    match word with
    | "if" =>
      let condition ← readList fuel
      expect "then"
      let consequent ← readList fuel
      return .branch condition consequent (← readBranchEnd fuel)
    | "while" => do
      let condition ← readList fuel
      return .loop false condition (← readBody fuel)
    | "until" =>
      let condition ← readList fuel
      return .loop true condition (← readBody fuel)
    | "for" => readForEach fuel
    | "case" =>
      skipBlanks
      let subject ← readParts fuel .delimiter
      skipLines fuel
      expect "in"
      return .choice subject (← readCases fuel)
    | "\x7b" =>
      let body ← readList fuel
      expect "\x7d"
      return body
    | _ => fail ("\"" ++ word ++ "\" unexpected")

/-- Read a command with its redirections. -/
def readCommand : Nat → ReadStep Command
  | 0 => fail "too deep"
  | fuel + 1 => do
    skipBlanks
    match ← reserved? with
    | some word =>
      skip word.length
      let command ← readCompound fuel word
      match ← readRedirections fuel with
      | [] => return command
      | redirections => return .redirected command redirections
    | none =>
      match ← ahead with
      | '(' :: _ =>
        skip 1
        let body ← readList fuel
        readClosing
        match ← readRedirections fuel with
        | [] => return .subshell body
        | redirections => return .redirected (.subshell body) redirections
      | text =>
        let name := text.takeWhile isNameChar
        let after := (text.drop name.length).dropWhile fun c => c = ' ' || c = '\t'
        if isName (String.ofList name) && startsWith "()" after then
          skip (text.length - after.length + 2)
          skipLines fuel
          return .definition (String.ofList name) (← readCommand fuel)
        else
          let line := (← get).line
          match ← readWords fuel true with
          | ([], [], []) =>
            match ← ahead with
            | [] => fail "end of file unexpected"
            | '\n' :: _ => fail "newline unexpected"
            | c :: _ => fail ("\"" ++ String.singleton c ++ "\" unexpected")
          | (assignments, words, redirections) => return .simple line assignments words redirections

/-- Read the commands of a pipeline. -/
def readPipeline : Nat → ReadStep (List Command)
  | 0 => fail "too deep"
  | fuel + 1 => do
    let first ← readCommand fuel
    skipBlanks
    match ← ahead with
    | '|' :: '|' :: _ => return [first]
    | '|' :: _ =>
      skip 1
      skipLines fuel
      return first :: (← readPipeline fuel)
    | _ => return [first]

/-- Read a pipeline, which may be negated. -/
def readNegation : Nat → ReadStep Command
  | 0 => fail "too deep"
  | fuel + 1 => do
    skipBlanks
    if (← reserved?) = some "!" then
      skip 1
      return .negated (← readNegation fuel)
    else
      match ← readPipeline fuel with
      | [command] => return command
      | commands => return .pipeline commands

/-- Read pipelines that depend on each other, after the first of them. -/
def readDependent : Nat → Command → ReadStep Command
  | 0, _ => fail "too deep"
  | fuel + 1, first => do
    skipBlanks
    match ← ahead with
    | '&' :: '&' :: _ =>
      skip 2
      skipLines fuel
      readDependent fuel (.both first (← readNegation fuel))
    | '|' :: '|' :: _ =>
      skip 2
      skipLines fuel
      readDependent fuel (.either first (← readNegation fuel))
    | _ => return first

/-- Read commands up to the end of a list. -/
def readCommands : Nat → ReadStep (List Command)
  | 0 => fail "too deep"
  | fuel + 1 => do
    skipLines fuel
    if ← isListEnd then return []
    else
      let command ← readDependent fuel (← readNegation fuel)
      skipBlanks
      match ← ahead with
      | ';' :: ';' :: _ => return [command]
      | ';' :: _ | '&' :: _ | '\n' :: _ =>
        skip 1
        return command :: (← readCommands fuel)
      | _ => return [command]

/-- Read a list of commands. -/
def readList : Nat → ReadStep Command
  | 0 => fail "too deep"
  | fuel + 1 => return .sequence (← readCommands fuel)

/-- Read a whole script. -/
def readScript : Nat → ReadStep Command
  | 0 => fail "too deep"
  | fuel + 1 => do
    let command ← readList fuel
    match ← ahead with
    | [] => return command
    | c :: _ => fail ("\"" ++ String.singleton c ++ "\" unexpected")

/-- Read the commands of a line. -/
def readLine : Nat → ReadStep (List Command)
  | 0 => fail "too deep"
  | fuel + 1 => do
    let command ← readDependent fuel (← readNegation fuel)
    skipBlanks
    match ← ahead with
    | [] => return [command]
    | '\n' :: _ =>
      skip 1
      return [command]
    | ';' :: ';' :: _ => fail "\";;\" unexpected"
    | ';' :: _ | '&' :: _ =>
      skip 1
      skipBlanks
      match ← ahead with
      | [] => return [command]
      | '\n' :: _ =>
        skip 1
        return [command]
      | _ => return command :: (← readLine fuel)
    | c :: _ => fail ("\"" ++ String.singleton c ++ "\" unexpected")

end

end Reader

/-- Read the next line of commands, which goes on over further lines if it has to. Nothing is left at the end
of a script. -/
def nextCommand : ReadStep (Option Command) := do
  let fuel := 16 * (← get).rest.length + 16
  Reader.skipLines fuel
  if (← get).rest.isEmpty then return none
  else return some (.sequence (← Reader.readLine fuel))

end ProcessorBench.Shell
