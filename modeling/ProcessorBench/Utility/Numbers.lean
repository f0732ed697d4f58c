import ProcessorBench.Text.BasicRegex
import ProcessorBench.Utility.Streams

/-!
# Numbers

The utilities `seq`, which writes numbers, and `expr`, which writes the value of an expression.
-/

namespace ProcessorBench.Numbers

/-- Write the numbers from one to another, in steps. -/
def sequence : ProcessStep Status := do
  let (separator, arguments) := match (← read).arguments with
    | "-s" :: separator :: rest => (separator, rest)
    | first :: rest =>
      match first.toList with
      | '-' :: 's' :: separator => (String.ofList separator, rest)
      | _ => ("\n", first :: rest)
    | [] => ("\n", [])
  let numbers := arguments.mapM (·.toInt?)
  let (first, step, last) : Int × Int × Int := match numbers with
    | some [last] => (1, 1, last)
    | some [first, last] => (first, 1, last)
    | some [first, step, last] => (first, step, last)
    | _ => (0, 0, 0)
  if step = 0 then
    Options.complainWithHelp (if arguments = [] then "missing operand" else "invalid arguments")
    return 1
  else
    let count := ((last - first).tdiv step + 1).toNat
    let isEmpty := if 0 < step then last < first else first < last
    let numbers := if isEmpty then [] else (List.range count).map fun (k : Nat) => toString (first + k * step)
    if numbers ≠ [] then Process.say (separator.intercalate numbers ++ "\n")
    return 0

/-! ## Expressions -/

/-- A step in evaluating an expression, which fails if the words are none. -/
abbrev EvalStep := StateT (List String) Option

/-- The operators between two operands, with how closely they bind. -/
def operators : List (String × Nat) :=
  [("|", 0), ("&", 1), ("=", 2), ("==", 2), ("!=", 2), ("<", 2), ("<=", 2), (">", 2), (">=", 2),
   ("+", 3), ("-", 3), ("*", 4), ("/", 4), ("%", 4), (":", 5)]

/-- Whether a value counts as none. -/
def isNull (value : String) : Bool := value = "" || value.toInt? = some 0

/-- The value of a comparison. -/
def compared (relation : Ordering → Bool) (a b : String) : String :=
  let order := match a.toInt?, b.toInt? with
    | some a, some b => compare a b
    | _, _ => compare a b
  if relation order then "1" else "0"

/-- What the start of a text matches of an expression: its first group, or the length of the match. -/
def matched (text pattern : String) : Option String := do
  let r ← BasicRegex.read? (Latin1.ofString pattern)
  let isGrouped := 1 < (Text.parts (· = '(') pattern.toList).length
  match r.longest? ⟨true, Latin1.ofString text, []⟩ with
  | some p =>
    if isGrouped then return Utf8.decodeLossy (Latin1.encode ((p.groups.lookup 1).getD []))
    else return toString (text.utf8ByteSize - p.rest.length)
  | none => return if isGrouped then "" else "0"

/-- What an operator makes of two values. -/
def combine? (operator a b : String) : Option String :=
  let arithmetic (f : Int → Int → Int) : Option String := do return toString (f (← a.toInt?) (← b.toInt?))
  match operator with
  | "|" => some (if isNull a then (if b = "" then "0" else b) else a)
  | "&" => some (if isNull a || isNull b then "0" else a)
  | "=" | "==" => some (compared (· == .eq) a b)
  | "!=" => some (compared (· != .eq) a b)
  | "<" => some (compared (· == .lt) a b)
  | "<=" => some (compared (· != .gt) a b)
  | ">" => some (compared (· == .gt) a b)
  | ">=" => some (compared (· != .lt) a b)
  | "+" => arithmetic (· + ·)
  | "-" => arithmetic (· - ·)
  | "*" => arithmetic (· * ·)
  | "/" => if b.toInt? = some 0 then none else arithmetic Int.tdiv
  | "%" => if b.toInt? = some 0 then none else arithmetic Int.tmod
  | ":" => matched a b
  | _ => none

mutual

/-- Evaluate an operand. -/
def evalOperand : Nat → EvalStep String
  | 0 => failure
  | fuel + 1 => do
    match ← get with
    | "(" :: rest =>
      set rest
      let value ← evalJoined fuel 0
      match ← get with
      | ")" :: rest => set rest
      | _ => failure
      return value
    | "length" :: text :: rest =>
      set rest
      return toString text.utf8ByteSize
    | "match" :: text :: pattern :: rest =>
      set rest
      matched text pattern
    | word :: rest =>
      set rest
      return word
    | [] => failure

/-- Evaluate operands joined by operators that bind at least so closely. -/
def evalJoined : Nat → Nat → EvalStep String
  | 0, _ => failure
  | fuel + 1, least => do evalMore fuel least (← evalOperand fuel)

/-- Evaluate what is joined to a first value. -/
def evalMore : Nat → Nat → String → EvalStep String
  | 0, _, _ => failure
  | fuel + 1, least, first => do
    match ← get with
    | operator :: rest =>
      match operators.lookup operator with
      | some strength =>
        if strength < least then return first
        else
          set rest
          let second ← evalJoined fuel (strength + 1)
          let value ← (combine? operator first second : Option String)
          evalMore fuel least value
      | none => return first
    | [] => return first

end

/-- Write the value of the expression that the arguments are. The status tells whether it counts as none. -/
def evaluate : ProcessStep Status := do
  let words := (← read).arguments
  match (evalJoined (4 * words.length + 4) 0).run words with
  | some (value, []) =>
    Process.say (value ++ "\n")
    return if isNull value then 1 else 0
  | _ =>
    Process.complain "syntax error"
    return 2

end ProcessorBench.Numbers
