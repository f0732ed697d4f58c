/-!
# Arithmetic of the shell

Expressions over integers of 64 bits, with variables by their names and the usual operators. A condition has
the value 1 if it holds, and else 0. `Arithmetic.read?` reads an expression, and `Expression.evaluate` gives
its value and the values that it assigns.
-/

namespace ProcessorBench.Shell.Arithmetic

/-- A piece of an expression. -/
inductive Token where
  | number (n : Int)
  | name (text : String)
  | operator (text : String)
deriving DecidableEq

/-- An expression. -/
inductive Expression where
  | number (n : Int)
  | named (name : String)
  | prefixed (operator : String) (operand : Expression)
  | joined (operator : String) (first second : Expression)
  | conditional (condition consequent otherwise : Expression)
  /-- Give a variable the value that an operator makes of its own and another, or just the other. -/
  | assignment (name : String) (operator : Option String) (value : Expression)

/-! ## Numbers -/

/-- The value of a digit, if it is one in the given base. -/
def digit? (base : Nat) (c : Char) : Option Nat :=
  let n :=
    if c.isDigit then c.toNat - '0'.toNat
    else if c.isAlpha then c.toLower.toNat - 'a'.toNat + 10
    else base
  if n < base then some n else none

/-- The number that digits write in a base, if there are any. -/
def digits? (base : Nat) : List Char → Option Nat
  | [] => none
  | digits => digits.foldlM (fun n c => (digit? base c).map (n * base + ·)) 0

/-- The greatest number of 64 bits. Greater ones are cut down to it. -/
def greatest : Nat := 0x7FFFFFFFFFFFFFFF

/-- The number that a text is: decimal, octal after a zero, or hexadecimal after `0x`. -/
def natural? : List Char → Option Int
  | '0' :: 'x' :: rest | '0' :: 'X' :: rest => (digits? 16 rest).map fun n => min n greatest
  | '0' :: rest => if rest = [] then some 0 else (digits? 8 rest).map fun n => min n greatest
  | text => (digits? 10 text).map fun n => min n greatest

/-- The number that a text with a sign is. A text of blanks is 0. -/
def integer? (text : List Char) : Option Int :=
  match text.dropWhile (·.isWhitespace) with
  | [] => some 0
  | '-' :: rest => (natural? rest).map (- ·)
  | '+' :: rest => natural? rest
  | rest => natural? rest

/-- An integer cut down to 64 bits. -/
def wrap (n : Int) : Int := (Int64.ofInt n).toInt

/-! ## Reading -/

/-- The operators that assign, with what they make of the two values. -/
def assigning : List (String × Option String) :=
  [("=", none), ("*=", some "*"), ("/=", some "/"), ("%=", some "%"), ("+=", some "+"), ("-=", some "-"),
   ("<<=", some "<<"), (">>=", some ">>"), ("&=", some "&"), ("^=", some "^"), ("|=", some "|")]

/-- The operators between two operands, with how closely they bind. -/
def joining : List (String × Nat) :=
  [("||", 1), ("&&", 2), ("|", 3), ("^", 4), ("&", 5), ("==", 6), ("!=", 6), ("<=", 7), (">=", 7),
   ("<", 7), (">", 7), ("<<", 8), (">>", 8), ("+", 9), ("-", 9), ("*", 10), ("/", 10), ("%", 10)]

/-- The operators in front of an operand. -/
def prefixing : List String := ["-", "+", "!", "~"]

/-- The operators and the other signs, the long ones first. -/
def signs : List String :=
  ["<<=", ">>=", "||", "&&", "==", "!=", "<=", ">=", "<<", ">>", "*=", "/=", "%=", "+=", "-=", "&=", "^=",
   "|=", "<", ">", "+", "-", "*", "/", "%", "!", "~", "&", "|", "^", "?", ":", "=", "(", ")"]

/-- Whether a character can be in a name or a number. -/
def isNameChar (c : Char) : Bool := c.isAlphanum || c = '_'

/-- Take an expression apart. Nothing if a character in it belongs to no piece. -/
def tokens? : Nat → List Char → Option (List Token)
  | _, [] => some []
  | 0, _ => none
  | fuel + 1, c :: rest =>
    if c = ' ' || c = '\t' || c = '\n' then tokens? fuel rest
    else if isNameChar c then do
      let word := (c :: rest).takeWhile isNameChar
      let first ← if c.isDigit then (natural? word).map .number else some (.name (String.ofList word))
      let more ← tokens? fuel ((c :: rest).drop word.length)
      return first :: more
    else do
      let sign ← signs.find? fun sign => sign.toList.isPrefixOf (c :: rest)
      let more ← tokens? fuel ((c :: rest).drop sign.length)
      return .operator sign :: more

/-- A step in reading an expression, which fails if there is none. -/
abbrev ReadStep := StateT (List Token) Option

/-- Go over a sign that has to come next. -/
def expect (sign : String) : ReadStep Unit := do
  match ← get with
  | first :: rest => if first = .operator sign then set rest else failure
  | [] => failure

mutual

/-- Read an expression, which may be an assignment. -/
def readWhole : Nat → ReadStep Expression
  | 0 => failure
  | fuel + 1 => do
    match ← get with
    | .name name :: .operator sign :: rest =>
      match assigning.lookup sign with
      | some operator =>
        set rest
        return .assignment name operator (← readWhole fuel)
      | none => readConditional fuel
    | _ => readConditional fuel

/-- Read an expression that is no assignment. -/
def readConditional : Nat → ReadStep Expression
  | 0 => failure
  | fuel + 1 => do
    let condition ← readJoined fuel 0
    match ← get with
    | .operator "?" :: rest =>
      set rest
      let consequent ← readWhole fuel
      expect ":"
      return .conditional condition consequent (← readConditional fuel)
    | _ => return condition

/-- Read operands joined by operators that bind at least so closely. -/
def readJoined : Nat → Nat → ReadStep Expression
  | 0, _ => failure
  | fuel + 1, least => do readMore fuel least (← readOperand fuel)

/-- Read what is joined to a first operand. -/
def readMore : Nat → Nat → Expression → ReadStep Expression
  | 0, _, _ => failure
  | fuel + 1, least, first => do
    match ← get with
    | .operator operator :: rest =>
      match joining.lookup operator with
      | some strength =>
        if strength < least then return first
        else
          set rest
          let second ← readJoined fuel (strength + 1)
          readMore fuel least (.joined operator first second)
      | none => return first
    | _ => return first

/-- Read an operand. -/
def readOperand : Nat → ReadStep Expression
  | 0 => failure
  | fuel + 1 => do
    match ← get with
    | .number n :: rest =>
      set rest
      return .number n
    | .name name :: rest =>
      set rest
      return .named name
    | .operator "(" :: rest =>
      set rest
      let inner ← readWhole fuel
      expect ")"
      return inner
    | .operator operator :: rest =>
      if prefixing.contains operator then
        set rest
        return .prefixed operator (← readOperand fuel)
      else failure
    | [] => failure

end

/-- Read an expression. An empty one is 0. -/
def read? (text : List Char) : Option Expression := do
  let tokens ← tokens? (text.length + 1) text
  if tokens.isEmpty then return .number 0
  match ← (readWhole (4 * tokens.length + 4)).run tokens with
  | (e, []) => return e
  | _ => none

/-! ## Values -/

/-- The value of a condition. -/
def truth (b : Bool) : Int := if b then 1 else 0

/-- What an operator makes of the bits of two numbers. -/
def bitwise (combine : UInt64 → UInt64 → UInt64) (a b : Int) : Int :=
  (combine (Int64.ofInt a).toUInt64 (Int64.ofInt b).toUInt64).toInt64.toInt

/-- What an operator makes of two numbers. -/
def combine? (operator : String) (a b : Int) : Option Int :=
  match operator with
  | "+" => some (wrap (a + b))
  | "-" => some (wrap (a - b))
  | "*" => some (wrap (a * b))
  | "/" => if b = 0 then none else some (wrap (a.tdiv b))
  | "%" => if b = 0 then none else some (a.tmod b)
  | "<" => some (truth (a < b))
  | ">" => some (truth (a > b))
  | "<=" => some (truth (a ≤ b))
  | ">=" => some (truth (a ≥ b))
  | "==" => some (truth (a = b))
  | "!=" => some (truth (a ≠ b))
  | "&" => some (bitwise (· &&& ·) a b)
  | "|" => some (bitwise (· ||| ·) a b)
  | "^" => some (bitwise (· ^^^ ·) a b)
  | "<<" => some (wrap (a <<< (b % 64).toNat))
  | ">>" => some (a >>> (b % 64).toNat)
  | _ => none

/-- What an operator makes of a number. -/
def change? (operator : String) (n : Int) : Option Int :=
  match operator with
  | "-" => some (wrap (-n))
  | "+" => some n
  | "!" => some (truth (n = 0))
  | "~" => some (-n - 1)
  | _ => none

/-- Values that have been assigned to variables, the last ones first. -/
abbrev Assigned := List (String × Int)

/-- The value of a variable, which may have been assigned just now. -/
def fetch (valueOf? : String → Option Int) (name : String) : StateT Assigned Option Int := do
  match (← get).lookup name with
  | some n => return n
  | none => valueOf? name

/-- The value of an expression, and the values that it assigns. What does not count is not evaluated. Nothing
if a variable is no number, or if there is a division by zero. -/
def Expression.evaluate (valueOf? : String → Option Int) : Expression → StateT Assigned Option Int
  | .number n => return n
  | .named name => fetch valueOf? name
  | .prefixed operator operand => do
    let n ← operand.evaluate valueOf?
    change? operator n
  | .joined operator first second => do
    let a ← first.evaluate valueOf?
    if operator = "&&" then
      if a = 0 then return 0 else return truth ((← second.evaluate valueOf?) ≠ 0)
    else if operator = "||" then
      if a ≠ 0 then return 1 else return truth ((← second.evaluate valueOf?) ≠ 0)
    else
      let b ← second.evaluate valueOf?
      combine? operator a b
  | .conditional condition consequent otherwise => do
    if (← condition.evaluate valueOf?) ≠ 0 then consequent.evaluate valueOf?
    else otherwise.evaluate valueOf?
  | .assignment name operator value => do
    let b ← value.evaluate valueOf?
    let n ← match operator with
      | none => pure b
      | some operator =>
        let a ← fetch valueOf? name
        (combine? operator a b : Option Int)
    modify ((name, n) :: ·)
    return n

end ProcessorBench.Shell.Arithmetic
