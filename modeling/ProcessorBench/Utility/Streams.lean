import ProcessorBench.Text.CharSet
import ProcessorBench.Text.Latin1
import ProcessorBench.Text.Lines
import ProcessorBench.Utility.Options

/-!
# Streams of lines

The utilities that read their operands, or the input if there are none, and write what is left of it: whole,
in part, in another order, or counted. Texts are worked on byte by byte.
-/

namespace ProcessorBench.Streams

/-- The content of an operand, where a hyphen is the input. -/
def contentOf (operand : String) : ProcessStep (Option Bytes) := do
  if operand = "-" then return some (← Process.readInput)
  else
    match (← Process.disk).read ⟨operand⟩ with
    | .ok content => return some content
    | .error fault =>
      Process.complain (operand ++ ": " ++ fault.description)
      return none

/-- The operands, or the input. -/
def sources (operands : List String) : List String := if operands = [] then ["-"] else operands

/-- Do something with the content of each operand, and tell whether all could be read. -/
def forEach (operands : List String) (step : String → Bytes → ProcessStep Unit) : ProcessStep Status := do
  let results ← (sources operands).mapM fun operand => do
    match ← contentOf operand with
    | some content =>
      step operand content
      return true
    | none => return false
  return if results.all id then 0 else 1

/-- The contents of the operands that can be read, and whether all can be. -/
def contentsOf (operands : List String) : ProcessStep (List (String × Bytes) × Bool) := do
  let contents ← (sources operands).mapM fun operand => do
    return (← contentOf operand).map (operand, ·)
  return (contents.filterMap id, contents.all (·.isSome))

/-- Lines as they stand in a text, and whether the last one is ended. -/
structure LineText where
  lines : List (List Char)
  isEnded : Bool

/-- The lines of some bytes. -/
def LineText.ofBytes (bytes : Bytes) : LineText :=
  let parts := Text.parts (· = '\n') (Latin1.decode bytes)
  if parts.getLast? = some [] then ⟨parts.dropLast, true⟩ else ⟨parts, false⟩

/-- The bytes of lines, of which the last one is ended or not. -/
def LineText.bytes (text : LineText) : Bytes :=
  let joined := ['\n'].intercalate text.lines
  Latin1.encode (if text.isEnded && text.lines ≠ [] then joined ++ ['\n'] else joined)

/-- Write lines, and end the last one or not. -/
def sayLines (lines : List (List Char)) (endsLast : Bool) : ProcessStep Unit :=
  Process.write Process.standardOutput (LineText.bytes ⟨lines, endsLast⟩)

/-- Write what a function makes of all content. -/
def filtered (operands : List String) (change : Bytes → ProcessStep Unit) : ProcessStep Status := do
  let (contents, complete) ← contentsOf operands
  change (contents.flatMap (·.2))
  return if complete then 0 else 1

/-! ## Whole files and parts of them -/

/-- Some digits in front of which there are blanks, so that they are as wide as asked for. -/
def aligned (width n : Nat) : List Char :=
  let digits := (toString n).toList
  List.replicate (width - digits.length) ' ' ++ digits

/-- Lines with their numbers, from one on, of which the last one is ended or not. -/
def numbered (lines : List (List Char)) (first : Nat) : List (List Char) :=
  (lines.zipIdx first).map fun (line, n) => aligned 6 n ++ '\t' :: line

/-- Write everything as it is, or with the numbers of the lines. -/
def concatenate : ProcessStep Status :=
  Options.withOptions "un" "" fun o =>
    if o.has 'n' then
      filtered o.operands fun content => do
        let text := LineText.ofBytes content
        sayLines (numbered text.lines 1) text.isEnded
    else forEach o.operands fun _ content => Process.write Process.standardOutput content

/-- Write the input, and put it into files too. -/
def tee : ProcessStep Status :=
  Options.withOptions "ai" "" fun o => do
    let content ← Process.readInput
    Process.write Process.standardOutput content
    let results ← o.operands.mapM fun operand => do
      let disk ← Process.disk
      let old := if o.has 'a' then (disk.read ⟨operand⟩).toOption.getD [] else []
      match ← Process.onDisk (Disk.write ⟨operand⟩ (old ++ content)) with
      | .ok () => return true
      | .error fault =>
        Process.complain (operand ++ ": " ++ fault.description)
        return false
    return if results.all id then 0 else 1

/-- Options with the number of lines written as `-5`, spelled as `-n 5`. -/
def spelledOut : List String → List String
  | first :: rest =>
    match first.toList with
    | '-' :: c :: digits =>
      if (c :: digits).all (·.isDigit) then "-n" :: String.ofList (c :: digits) :: rest else first :: rest
    | _ => first :: rest
  | [] => []

/-- A number of lines or bytes, with the sign in front of it. -/
structure Amount where
  sign : Option Char
  number : Nat

/-- Read an amount. -/
def Amount.read? (text : String) : Option Amount :=
  match text.toList with
  | '+' :: digits => (String.ofList digits).toNat?.map (⟨some '+', ·⟩)
  | '-' :: digits => (String.ofList digits).toNat?.map (⟨some '-', ·⟩)
  | _ => text.toNat?.map (⟨none, ·⟩)

/-- The start of a list: so many elements, or all but so many at its end. -/
def Amount.front {α : Type} (a : Amount) (list : List α) : List α :=
  if a.sign = some '-' then list.take (list.length - a.number) else list.take a.number

/-- The end of a list: so many elements, or all from a number on. -/
def Amount.back {α : Type} (a : Amount) (list : List α) : List α :=
  if a.sign = some '+' then list.drop (a.number - 1) else list.drop (list.length - a.number)

/-- The lines of some bytes with their ends. -/
def endedLines (content : Bytes) : List Bytes :=
  let text := LineText.ofBytes content
  let ended := text.lines.map fun line => Latin1.encode line ++ [0x0a]
  if text.isEnded then ended
  else ended.dropLast ++ (ended.getLast?.map (·.dropLast)).toList

/-- Write a part of each operand, under its name if there are several. -/
def writeParts (lines : Amount → List Bytes → List Bytes) (bytes : Amount → Bytes → Bytes) :
    ProcessStep Status := fun p =>
  let step := Options.withOptions "qv" "nc" fun o => do
    let amount (letter : Char) : Option (Option Amount) := (o.value? letter).map Amount.read?
    match amount 'c', (amount 'n').getD (some ⟨none, 10⟩) with
    | some none, _ =>
      Process.complain ("invalid number of bytes: '" ++ (o.value? 'c').getD "" ++ "'")
      return 1
    | none, none =>
      Process.complain ("invalid number of lines: '" ++ (o.value? 'n').getD "" ++ "'")
      return 1
    | count, lineCount => do
      let isNamed := o.has 'v' || (o.operands.length > 1 && !o.has 'q')
      forEach o.operands fun operand content => do
        if isNamed then
          let gap := if o.operands.head? = some operand then "" else "\n"
          Process.say (gap ++ "==> " ++ operand ++ " <==\n")
        match count, lineCount with
        | some (some a), _ => Process.write Process.standardOutput (bytes a content)
        | _, some a => Process.write Process.standardOutput (lines a (endedLines content)).flatten
        | _, none => return
  step { p with arguments := spelledOut p.arguments }

/-- Write the start of each operand. -/
def head : ProcessStep Status := writeParts Amount.front Amount.front

/-- Write the end of each operand. -/
def tail : ProcessStep Status := writeParts Amount.back Amount.back

/-! ## Counting and ordering -/

/-- The numbers of lines, of words and of bytes. -/
def countsOf (content : Bytes) : Nat × Nat × Nat :=
  let isWordBreak (b : UInt8) : Bool := b = 0x20 || (9 ≤ b && b ≤ 13)
  let words := content.zip (0x20 :: content) |>.countP fun (b, before) =>
    !isWordBreak b && isWordBreak before
  (content.count 0x0a, words, content.length)

/-- Count lines, words and bytes. Several numbers are as wide as the greatest one that there can be. -/
def count : ProcessStep Status :=
  Options.withOptions "lwcm" "" fun o => do
    let (contents, complete) ← contentsOf o.operands
    let all := !(o.has 'l' || o.has 'w' || o.has 'c' || o.has 'm')
    let chosen := fun ((lines, words, bytes) : Nat × Nat × Nat) =>
      (if o.has 'l' || all then [lines] else []) ++ (if o.has 'w' || all then [words] else []) ++
        (if o.has 'c' || o.has 'm' || all then [bytes] else [])
    let rows := contents.map fun (operand, content) => (operand, countsOf content)
    let total := rows.foldl
      (fun (lines, words, bytes) (_, more) => (lines + more.1, words + more.2.1, bytes + more.2.2))
      ((0, 0, 0) : Nat × Nat × Nat)
    let isSingle := o.operands.length ≤ 1 && (chosen total).length = 1
    let width := if isSingle then 1
      else if o.operands = [] || o.operands.contains "-" then 7
      else (toString total.2.2).length
    let row (name : String) (counts : Nat × Nat × Nat) : ProcessStep Unit := do
      let numbers := (chosen counts).map fun n => String.ofList (aligned width n)
      let names := if o.operands = [] then [] else [name]
      Process.say (" ".intercalate (numbers ++ names) ++ "\n")
    rows.forM fun (operand, counts) => row operand counts
    if o.operands.length > 1 then row "total" total
    return if complete then 0 else 1

/-- The number that a line starts with, in thousandths of itself. A line without one counts as 0. -/
def leadingNumber (line : List Char) : Int :=
  let text := line.dropWhile fun c => c = ' ' || c = '\t'
  let (negative, text) := match text with
    | '-' :: rest => (true, rest)
    | rest => (false, rest)
  let number (digits : List Char) : Nat := digits.foldl (fun n c => n * 10 + (c.toNat - '0'.toNat)) 0
  let whole := text.takeWhile (·.isDigit)
  let fraction := match text.drop whole.length with
    | '.' :: rest => (rest.takeWhile (·.isDigit)).take 3
    | _ => []
  let places := fraction ++ List.replicate (3 - fraction.length) '0'
  let n : Int := number (whole ++ places)
  if negative then -n else n

/-- The first of each row of lines that count as the same. -/
def firsts (isSame : List Char → List Char → Bool) : List (List Char) → List (List Char)
  | a :: b :: rest =>
    if isSame a b then firsts isSame (a :: rest) else a :: firsts isSame (b :: rest)
  | lines => lines
termination_by lines => lines.length

/-- Write lines in the order of their characters, or of the numbers that they start with. -/
def sort : ProcessStep Status :=
  Options.withOptions "runs" "" fun o => filtered o.operands fun content => do
    let lines := (LineText.ofBytes content).lines
    let isSame (a b : List Char) : Bool :=
      if o.has 'n' then leadingNumber a = leadingNumber b else a = b
    let precedes (a b : List Char) : Bool :=
      if isSame a b then !o.has 'n' || o.has 'u' || decide (String.ofList a ≤ String.ofList b)
      else if o.has 'n' then leadingNumber a < leadingNumber b
      else decide (String.ofList a ≤ String.ofList b)
    let sorted := lines.mergeSort precedes
    let sorted := if o.has 'u' then firsts isSame sorted else sorted
    let sorted := if o.has 'r' then sorted.reverse else sorted
    sayLines sorted true

/-- Lines with the number of times that each stands in a row. -/
def runsOf : List (List Char) → List (Nat × List Char)
  | [] => []
  | line :: rest =>
    match runsOf rest with
    | (n, next) :: more => if line = next then (n + 1, next) :: more else (1, line) :: (n, next) :: more
    | [] => [(1, line)]

/-- Write only one of the same lines in a row. -/
def unique : ProcessStep Status :=
  Options.withOptions "cdu" "" fun o => filtered (o.operands.take 1) fun content => do
    let runs := (runsOf (LineText.ofBytes content).lines).filter fun (n, _) =>
      (!o.has 'd' || n > 1) && (!o.has 'u' || n = 1)
    sayLines (runs.map fun (n, line) => if o.has 'c' then aligned 7 n ++ ' ' :: line else line) true

/-- Tell where two operands differ first. The status tells whether they do. -/
def compare : ProcessStep Status :=
  Options.withOptions "sl" "" fun o => do
    let (contents, _) ← contentsOf (o.operands.take 2)
    match contents with
    | [(a, first), (b, second)] =>
      let same := ((first.zip second).takeWhile fun (x, y) => x = y).length
      if same < first.length && same < second.length then
        if !o.has 's' then
          let line := (first.take same).count 0x0a + 1
          Process.say (a ++ " " ++ b ++ " differ: char " ++ toString (same + 1) ++ ", line " ++
            toString line ++ "\n")
        return 1
      else if first.length = second.length then return 0
      else
        if !o.has 's' then
          let shorter := if first.length < second.length then a else b
          Process.complain ("EOF on " ++ shorter ++ " after byte " ++ toString same ++ ", in line " ++
            toString ((first.take same).count 0x0a + 1))
        return 1
    | _ => return 2

/-! ## Parts of lines -/

/-- The numbers that a list such as `1,3-5,7-` names, as ranges. -/
def ranges? (text : String) : Option (List (Nat × Option Nat)) :=
  (Text.splitOn ',' text).mapM fun part =>
    match Text.splitOn '-' part with
    | [n] => n.toNat?.map fun n => (n, some n)
    | ["", last] => last.toNat?.map fun last => (1, some last)
    | [first, ""] => first.toNat?.map fun first => (first, none)
    | [first, last] => do return (← first.toNat?, some (← last.toNat?))
    | _ => none

/-- The elements whose numbers, from 1 on, are in some ranges. -/
def chosen {α : Type} (ranges : List (Nat × Option Nat)) (list : List α) : List α :=
  (list.zipIdx 1).filterMap fun (a, n) =>
    if ranges.any fun (first, last) => first ≤ n && last.all (n ≤ ·) then some a else none

/-- Write some of the characters or of the fields of each line. -/
def cut : ProcessStep Status :=
  Options.withOptions "sn" "bcfd" fun o => do
    let list := (o.value? 'f' <|> o.value? 'c' <|> o.value? 'b').bind ranges?
    match list with
    | none =>
      Options.complainWithHelp "you must specify a list of bytes, characters, or fields"
      return 1
    | some ranges =>
      let delimiter := (Latin1.ofString ((o.value? 'd').getD "\t")).headD '\x00'
      filtered o.operands fun content => do
        let cutLine (line : List Char) : Option (List Char) :=
          if (o.value? 'f').isNone then some (chosen ranges line)
          else if line.contains delimiter then
            some ([delimiter].intercalate (chosen ranges (Text.parts (· = delimiter) line)))
          else if o.has 's' then none
          else some line
        sayLines ((LineText.ofBytes content).lines.filterMap cutLine) true

/-! ## Other characters -/

/-- The characters that a list such as `a-z` names, each backslash sequence being one. -/
def listed : List Char → List Char
  | '\\' :: 'n' :: rest => '\n' :: listed rest
  | '\\' :: 't' :: rest => '\t' :: listed rest
  | '\\' :: 'r' :: rest => '\r' :: listed rest
  | '\\' :: c :: rest =>
    let digits := ((c :: rest).take 3).takeWhile fun d => '0' ≤ d && d ≤ '7'
    if digits = [] then c :: listed rest
    else
      Char.ofNat (digits.foldl (fun n d => n * 8 + (d.toNat - '0'.toNat)) 0) ::
        listed (rest.drop (digits.length - 1))
  | '[' :: ':' :: rest =>
    let name := rest.takeWhile (· ≠ ':')
    match CharSet.named.lookup (String.ofList name) with
    | some ranges =>
      (ranges.flatMap fun (a, b) =>
        (List.range (b.toNat + 1 - a.toNat)).map fun k => Char.ofNat (a.toNat + k)) ++
        listed (rest.drop (name.length + 2))
    | none => '[' :: listed (':' :: rest)
  | a :: '-' :: b :: rest =>
    (List.range (b.toNat + 1 - a.toNat)).map (fun k => Char.ofNat (a.toNat + k)) ++ listed rest
  | c :: rest => c :: listed rest
  | [] => []
termination_by text => text.length
decreasing_by all_goals simp only [List.length_cons, List.length_drop]; omega

/-- A text in which no character of a kind stands twice in a row. -/
def squeezed (isKind : Char → Bool) : List Char → List Char
  | a :: b :: rest =>
    if a = b && isKind a then squeezed isKind (b :: rest) else a :: squeezed isKind (b :: rest)
  | text => text

/-- Put characters in the place of others, delete them, or leave out their repetitions. -/
def exchange : ProcessStep Status :=
  Options.withOptions "dcCs" "" fun o => filtered [] fun content => do
    let text := Latin1.decode content
    let first := listed (Latin1.ofString (o.operands.headD ""))
    let isFirst (c : Char) : Bool := first.contains c != (o.has 'c' || o.has 'C')
    let second := (o.operands[1]?).map fun operand => listed (Latin1.ofString operand)
    let isRepeatable (c : Char) : Bool := o.has 's' && second.elim (isFirst c) (·.contains c)
    let change (second : List Char) (c : Char) : Char :=
      let last := second.getLastD ' '
      if isFirst c then (if o.has 'c' || o.has 'C' then last else second.getD (first.idxOf c) last) else c
    let changed := if o.has 'd' then text.filter (!isFirst ·)
      else second.elim text fun second => text.map (change second)
    Process.write Process.standardOutput (Latin1.encode (squeezed isRepeatable changed))

end ProcessorBench.Streams
