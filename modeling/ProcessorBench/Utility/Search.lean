import ProcessorBench.Text.BasicRegex
import ProcessorBench.Utility.Streams

/-!
# Searching

The utility `grep`, which writes the lines of its operands that an expression matches.
-/

namespace ProcessorBench.Search

/-- The expressions of a search: those of a text, one in each line, in the spelling that the options ask
for. -/
def expressions? (o : Options) (source : String) : Option (List BasicRegex) :=
  (Text.parts (· = '\n') (Latin1.ofString source)).mapM fun text => do
    let r ← if o.has 'F' then some (BasicRegex.ofList (text.map .char))
      else BasicRegex.read? (if o.has 'E' then BasicRegex.ofExtended text else text)
    return if o.has 'i' then r.folded else r

/-- Whether a character is part of a word. -/
def isWordChar (c : Char) : Bool := c.isAlphanum || c = '_'

/-- Whether a match is a whole line or a whole word, where that is asked for. -/
def isWhole (o : Options) (m : BasicRegex.Match) : Bool :=
  if o.has 'x' then m.before = [] && m.after = []
  else if o.has 'w' then
    !(m.before.getLast?.any isWordChar) && !(m.after.head?.any isWordChar)
  else true

/-- The matches in what is left of a line, one behind the other. -/
def matchesFrom (o : Options) (r : BasicRegex) : Nat → Bool → List Char → List Char → List BasicRegex.Match
  | 0, _, _, _ => []
  | fuel + 1, isStart, before, rest =>
    match r.findFrom isStart before.reverse rest with
    | none => []
    | some m =>
      let isTaken := isWhole o m && m.matched ≠ []
      let passed := if isTaken then m.matched.length else 1
      let front := m.before ++ (m.matched ++ m.after).take passed
      let after := (m.matched ++ m.after).drop passed
      let more := if m.matched ++ m.after = [] then [] else matchesFrom o r fuel false front after
      if isWhole o m then m :: more else more

/-- The matches of some expressions in a line. -/
def matchesIn (o : Options) (rs : List BasicRegex) (line : List Char) : List BasicRegex.Match :=
  rs.flatMap fun r => matchesFrom o r (line.length + 2) true [] line

/-- Write the lines of an operand that some expressions match, and tell whether there are any. -/
def searchContent (o : Options) (rs : List BasicRegex) (isNamed : Bool) (operand : String)
    (content : Bytes) : ProcessStep Bool := do
  let name := if operand = "-" then "(standard input)" else operand
  let lines := (Streams.LineText.ofBytes content).lines.zipIdx 1
  let found := lines.filter fun (line, _) => (matchesIn o rs line ≠ []) != o.has 'v'
  let front (number : Nat) : List Char :=
    Latin1.ofString ((if isNamed then name ++ ":" else "") ++
      (if o.has 'n' then toString number ++ ":" else ""))
  if o.has 'q' then return found ≠ []
  else if o.has 'l' then
    if found ≠ [] then Process.say (name ++ "\n")
  else if o.has 'L' then
    if found = [] then Process.say (name ++ "\n")
  else if o.has 'c' then
    Process.say ((if isNamed then name ++ ":" else "") ++ toString found.length ++ "\n")
  else if o.has 'o' then
    let pieces := found.flatMap fun (line, number) =>
      ((matchesIn o rs line).filter (·.matched ≠ [])).map fun m => front number ++ m.matched
    Streams.sayLines pieces true
  else Streams.sayLines (found.map fun (line, number) => front number ++ line) true
  return found ≠ []

/-- Write the lines that some expressions match. The status tells whether there are any. -/
def run : ProcessStep Status :=
  Options.withOptions "qvicnlLsExFohHw" "e" fun o => do
    let (source, operands) := match o.values 'e', o.operands with
      | [], source :: operands => (source, operands)
      | [], [] => ("", [])
      | sources, operands => ("\n".intercalate sources, operands)
    match expressions? o source with
    | none =>
      Process.complain "Invalid regular expression"
      return 2
    | some rs =>
      let isNamed := o.has 'H' || (operands.length > 1 && !o.has 'h')
      let results ← (Streams.sources operands).mapM fun operand => do
        let content ← if o.has 's' && operand ≠ "-" then
            pure ((← Process.disk).read ⟨operand⟩).toOption
          else Streams.contentOf operand
        match content with
        | some content => return some (← searchContent o rs isNamed operand content)
        | none => return none
      let isFound := results.any (· = some true)
      return if results.contains none && !(o.has 'q' && isFound) then 2 else if isFound then 0 else 1

end ProcessorBench.Search
