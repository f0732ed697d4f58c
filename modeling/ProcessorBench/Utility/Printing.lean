import ProcessorBench.Process.Machine

/-!
# Printing

The utilities `echo` and `printf`, which know sequences of a backslash and a letter, or of a backslash and
the octal number of a byte.
-/

namespace ProcessorBench.Printing

/-- The byte of a letter after a backslash. -/
def escaped? : Char → Option UInt8
  | 'a' => some 7
  | 'b' => some 8
  | 't' => some 9
  | 'n' => some 10
  | 'v' => some 11
  | 'f' => some 12
  | 'r' => some 13
  | '\\' => some 0x5c
  | _ => none

/-- Whether a character is an octal digit. -/
def isOctal (c : Char) : Bool := '0' ≤ c && c ≤ '7'

/-- The octal number that a text starts with, of at most some digits, and how many there are. -/
def octal (limit : Nat) (text : List Char) : UInt8 × Nat :=
  let digits := (text.take limit).takeWhile isOctal
  (UInt8.ofNat (digits.foldl (fun n c => n * 8 + (c.toNat - '0'.toNat)) 0), digits.length)

/-- What a backslash and the text after it stand for, and how much of that text belongs to it. Nothing
stands for an end of all output, written `\c`. Octal numbers start with a further zero where that is asked
for. -/
def escapeAt (zeroFirst : Bool) : List Char → Option Bytes × Nat
  | [] => (some [0x5c], 0)
  | c :: rest =>
    if c = 'c' then (none, 1)
    else
      match escaped? c with
      | some byte => (some [byte], 1)
      | none =>
        if c = '0' && zeroFirst then
          let (byte, length) := octal 3 rest
          (some [byte], length + 1)
        else if isOctal c && !zeroFirst then
          let (byte, length) := octal 3 (c :: rest)
          (some [byte], length)
        else (some (0x5c :: String.utf8EncodeChar c), 1)

/-- The bytes that a text with escapes stands for, and whether it goes on after them. -/
def unescape (zeroFirst : Bool) : List Char → Bytes × Bool
  | [] => ([], true)
  | c :: rest =>
    if c = '\\' then
      match escapeAt zeroFirst rest with
      | (none, _) => ([], false)
      | (some bytes, length) =>
        let (more, goesOn) := unescape zeroFirst (rest.drop length)
        (bytes ++ more, goesOn)
    else
      let (more, goesOn) := unescape zeroFirst rest
      (String.utf8EncodeChar c ++ more, goesOn)
termination_by text => text.length
decreasing_by all_goals simp only [List.length_cons, List.length_drop]; omega

/-- Print the arguments, with a blank between them and a line end, unless the first of them is `-n`. -/
def echo : ProcessStep Status := do
  let (endsLine, texts) := match (← read).arguments with
    | "-n" :: texts => (false, texts)
    | texts => (true, texts)
  let (bytes, goesOn) := unescape true (" ".intercalate texts).toList
  Process.write Process.standardOutput (if endsLine && goesOn then bytes ++ [0x0a] else bytes)
  return 0

/-! ## Formats -/

/-- How an argument is printed. -/
structure Conversion where
  leftAligned : Bool := false
  zeroPadded : Bool := false
  signed : Bool := false
  /-- Whether a blank stands where a sign could. -/
  spaced : Bool := false
  /-- Whether the base of a number is shown. -/
  alternative : Bool := false
  width : Nat := 0
  precision : Option Nat := none
  letter : Char

/-- A piece of a format. -/
inductive FormatPart where
  | bytes (bytes : Bytes)
  /-- The end of all output. -/
  | stop
  | conversion (c : Conversion)

/-- The number that a text starts with, and how many digits it has. -/
def decimal (text : List Char) : Nat × Nat :=
  let digits := text.takeWhile (·.isDigit)
  (digits.foldl (fun n c => n * 10 + (c.toNat - '0'.toNat)) 0, digits.length)

/-- The conversion that stands after a percent sign, and how much of the text it takes up. -/
def conversionAt (text : List Char) : Option (Conversion × Nat) := do
  let flags := text.takeWhile ("-0+ #".contains ·)
  let rest := text.drop flags.length
  let (width, widthLength) := decimal rest
  let rest := rest.drop widthLength
  let (precision, precisionLength) := match rest with
    | '.' :: digits => (some (decimal digits).1, (decimal digits).2 + 1)
    | _ => (none, 0)
  let letter ← (rest.drop precisionLength).head?
  let c : Conversion :=
    { leftAligned := flags.contains '-', zeroPadded := flags.contains '0'
      signed := flags.contains '+', spaced := flags.contains ' ', alternative := flags.contains '#'
      width, precision, letter }
  return (c, flags.length + widthLength + precisionLength + 1)

/-- Read a format. -/
def readFormat : List Char → List FormatPart
  | [] => []
  | c :: rest =>
    if c = '\\' then
      match escapeAt false rest with
      | (none, _) => [.stop]
      | (some bytes, length) => .bytes bytes :: readFormat (rest.drop length)
    else if c = '%' then
      match conversionAt rest with
      | some (conversion, length) =>
        (if conversion.letter = '%' then .bytes [0x25] else .conversion conversion) ::
          readFormat (rest.drop length)
      | none => [.bytes [0x25]]
    else .bytes (String.utf8EncodeChar c) :: readFormat rest
termination_by text => text.length
decreasing_by all_goals simp only [List.length_cons, List.length_drop]; omega

/-- Some bytes with others in front or behind, so that they are as many as asked for. -/
def pad (c : Conversion) (isNumber : Bool) (bytes : Bytes) : Bytes :=
  let missing := c.width - bytes.length
  if c.leftAligned then bytes ++ List.replicate missing 0x20
  else if c.zeroPadded && isNumber then
    match bytes with
    | 0x2d :: digits => 0x2d :: List.replicate missing 0x30 ++ digits
    | 0x2b :: digits => 0x2b :: List.replicate missing 0x30 ++ digits
    | digits => List.replicate missing 0x30 ++ digits
  else List.replicate missing 0x20 ++ bytes

/-- The value of a digit, if it is one in the given base. -/
def digitIn? (base : Nat) (c : Char) : Option Nat :=
  let n :=
    if c.isDigit then c.toNat - '0'.toNat
    else if c.isAlpha then c.toLower.toNat - 'a'.toNat + 10
    else base
  if n < base then some n else none

/-- The number that a text starts with in a base, and the rest of the text. -/
def leadingNumber (base : Nat) (text : List Char) : Nat × List Char :=
  let digits := text.takeWhile fun c => (digitIn? base c).isSome
  (digits.foldl (fun n c => n * base + (digitIn? base c).getD 0) 0, text.drop digits.length)

/-- The number that an argument starts with, and what is left of it: a decimal number, an octal one after a
zero, a hexadecimal one after `0x`, or the code of a character after a quote. -/
def numberOf (argument : String) : Int × List Char :=
  let natural (text : List Char) : Nat × List Char :=
    match text with
    | '0' :: 'x' :: rest | '0' :: 'X' :: rest => leadingNumber 16 rest
    | '0' :: rest => leadingNumber 8 rest
    | text => leadingNumber 10 text
  match argument.toList.dropWhile (·.isWhitespace) with
  | '\'' :: c :: _ | '"' :: c :: _ => (c.toNat, [])
  | '-' :: rest => (-(natural rest).1, (natural rest).2)
  | '+' :: rest => ((natural rest).1, (natural rest).2)
  | rest => ((natural rest).1, (natural rest).2)

/-- What is wrong with an argument that has to be a number. -/
def numberProblem? (argument : String) : Option String :=
  let (_, rest) := numberOf argument
  if rest = [] then none
  else if rest = argument.toList then some (argument ++ ": expected numeric value")
  else some (argument ++ ": not completely converted")

/-- The digits of a number, at least so many. -/
def digitsOf (base : Nat) (upper : Bool) (least n : Nat) : List Char :=
  let digits := Nat.toDigits base n
  let digits := if upper then digits.map (·.toUpper) else digits
  List.replicate (least - digits.length) '0' ++ digits

/-- The letters of the conversions of numbers. -/
def numberLetters : List Char := ['d', 'i', 'u', 'o', 'x', 'X']

/-- A number as it is printed. Only decimal ones have a sign; other negative ones are those of 64 bits. -/
def numberText (c : Conversion) (n : Int) : String :=
  let least := c.precision.getD 1
  let bits := (n % 0x10000000000000000).toNat
  let front (mark : String) : List Char := if c.alternative && bits ≠ 0 then mark.toList else []
  String.ofList <|
    match c.letter with
    | 'o' => front "0" ++ digitsOf 8 false least bits
    | 'x' => front "0x" ++ digitsOf 16 false least bits
    | 'X' => front "0X" ++ digitsOf 16 true least bits
    | 'u' => digitsOf 10 false least bits
    | _ =>
      let sign := if n < 0 then ['-'] else if c.signed then ['+'] else if c.spaced then [' '] else []
      sign ++ digitsOf 10 false least n.natAbs

/-- Print an argument. The result says too whether anything comes after it. -/
def convert (c : Conversion) (argument : String) : Bytes × Bool :=
  let cut (bytes : Bytes) : Bytes := match c.precision with
    | some length => bytes.take length
    | none => bytes
  if numberLetters.contains c.letter then
    (pad c c.precision.isNone (Utf8.encode (numberText c (numberOf argument).1)), true)
  else
  match c.letter with
  | 'c' => (pad c false [(Utf8.encode argument).headD 0], true)
  | 'b' =>
    let (bytes, goesOn) := unescape true argument.toList
    (pad c false (cut bytes), goesOn)
  | _ => (pad c false (cut (Utf8.encode argument)), true)

/-- Print arguments in a format, once. The result is what is printed, the arguments that are left, and
whether anything comes after it. -/
def printOnce : List FormatPart → List String → Bytes × List String × Bool
  | [], arguments => ([], arguments, true)
  | .stop :: _, arguments => ([], arguments, false)
  | .bytes bytes :: parts, arguments =>
    let (more, rest) := printOnce parts arguments
    (bytes ++ more, rest)
  | .conversion c :: parts, arguments =>
    match convert c (arguments.headD "") with
    | (bytes, false) => (bytes, arguments.tail, false)
    | (bytes, true) =>
      let (more, rest) := printOnce parts arguments.tail
      (bytes ++ more, rest)

/-- Print arguments in a format, which is used again as long as there are arguments for it. -/
def printAll (parts : List FormatPart) : Nat → List String → Bytes
  | 0, _ => []
  | fuel + 1, arguments =>
    let (bytes, rest, goesOn) := printOnce parts arguments
    if goesOn && rest ≠ [] && rest.length < arguments.length then bytes ++ printAll parts fuel rest
    else bytes

/-- The arguments that have to be numbers, where a format is used again as long as there are arguments. -/
def numericArguments (parts : List FormatPart) (arguments : List String) : List String :=
  let letters := parts.filterMap fun
    | .conversion c => some c.letter
    | _ => none
  (arguments.zipIdx.filter fun (_, index) =>
    numberLetters.contains (letters.getD (index % letters.length) 's')).map (·.1)

/-- Print the arguments after the first in the format that the first gives. -/
def printf : ProcessStep Status := do
  let arguments := match (← read).arguments with
    | "--" :: rest => rest
    | arguments => arguments
  match arguments with
  | [] =>
    Process.complain "missing operand"
    return 2
  | format :: arguments =>
    let parts := readFormat format.toList
    Process.write Process.standardOutput (printAll parts (arguments.length + 1) arguments)
    let problems := (numericArguments parts arguments).filterMap numberProblem?
    problems.forM Process.complain
    return if problems = [] then 0 else 1

end ProcessorBench.Printing
