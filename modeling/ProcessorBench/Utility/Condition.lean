import ProcessorBench.Process.Machine

/-!
# Conditions

The utility `test`, also written as a bracket: conditions on texts, numbers and files.
-/

namespace ProcessorBench.Condition

/-- A condition on a text or on a file. Nothing if there is no such condition. -/
def unary? (disk : Disk) (operator operand : String) : Option Bool :=
  let path : Path := ⟨operand⟩
  match operator with
  | "-n" => some (operand ≠ "")
  | "-z" => some (operand = "")
  | "-e" | "-r" | "-w" | "-a" => some (disk.exists? path)
  | "-f" => some (disk.isFile path)
  | "-d" => some (disk.isDir path)
  | "-s" => some <|
    match disk.lookup path with
    | .ok (.file content _) => content ≠ []
    | .ok (.dir _) => true
    | .error _ => false
  | "-x" => some <|
    match disk.lookup path with
    | .ok (.file _ executable) => executable
    | .ok (.dir _) => true
    | .error _ => false
  | "-h" | "-L" | "-p" | "-S" | "-b" | "-c" | "-t" => some false
  | _ => none

/-- The number that a text is, which can have blanks around it and a sign. -/
def number? (text : String) : Option Int :=
  let isBlank (c : Char) : Bool := c = ' ' || c = '\t' || c = '\n'
  let inner := ((text.toList.dropWhile isBlank).reverse.dropWhile isBlank).reverse
  match inner with
  | '+' :: rest => (String.ofList rest).toNat?.map fun n => (n : Int)
  | rest => (String.ofList rest).toInt?

/-- A comparison of two numbers. Nothing if a text is no number. -/
def compare? (relation : Int → Int → Bool) (a b : String) : Option Bool :=
  return relation (← number? a) (← number? b)

/-- A condition on two texts or numbers. Nothing if there is no such condition. -/
def binary? (operator a b : String) : Option Bool :=
  match operator with
  | "=" | "==" => some (a = b)
  | "!=" => some (a ≠ b)
  | "-eq" => compare? (· == ·) a b
  | "-ne" => compare? (· != ·) a b
  | "-lt" => compare? (· < ·) a b
  | "-le" => compare? (· ≤ ·) a b
  | "-gt" => compare? (· > ·) a b
  | "-ge" => compare? (· ≥ ·) a b
  | _ => none

/-- The operators that stand between two operands. -/
def binaryOperators : List String :=
  ["=", "==", "!=", "-eq", "-ne", "-lt", "-le", "-gt", "-ge"]

/-- The condition at the front of some words, and the words after it. -/
def primary? (disk : Disk) : List String → Option (Bool × List String)
  | [] => none
  | [word] => some (word ≠ "", [])
  | [operator, operand] => do
    return (← unary? disk operator operand, [])
  | a :: operator :: b :: rest =>
    if binaryOperators.contains operator then do
      return (← binary? operator a b, rest)
    else
      match unary? disk a operator with
      | some holds => some (holds, b :: rest)
      | none => none

/-- The condition that some words state. Nothing if they state none. -/
def holds? (disk : Disk) : Nat → List String → Option Bool
  | 0, _ => none
  | _, [] => some false
  | fuel + 1, words =>
    match words with
    | ["!", word] => some (word = "")
    | ["(", word, ")"] => some (word ≠ "")
    | [a, operator, b] =>
      if binaryOperators.contains operator then binary? operator a b
      else if operator = "-a" then some (a ≠ "" && b ≠ "")
      else if operator = "-o" then some (a ≠ "" || b ≠ "")
      else if a = "!" then (holds? disk fuel [operator, b]).map (!·)
      else none
    | "!" :: rest => (holds? disk fuel rest).map (!·)
    | words => do
      let (first, rest) ← primary? disk words
      match rest with
      | [] => return first
      | "-a" :: rest =>
        let second ← holds? disk fuel rest
        return first && second
      | "-o" :: rest =>
        let second ← holds? disk fuel rest
        return first || second
      | _ => none

/-- Test a condition that some words state. -/
def evaluate (words : List String) : ProcessStep Status := do
  match holds? (← Process.disk) (words.length + 1) words with
  | some true => return 0
  | some false => return 1
  | none =>
    Process.complain "syntax error"
    return 2

/-- Test the condition that the arguments state. -/
def test : ProcessStep Status := do evaluate (← read).arguments

/-- Test the condition that the arguments in front of a closing bracket state. -/
def bracket : ProcessStep Status := do
  match (← read).arguments.reverse with
  | "]" :: words => evaluate words.reverse
  | _ =>
    Process.complain "missing ]"
    return 2

end ProcessorBench.Condition
