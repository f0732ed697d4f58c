import ProcessorBench.Bytes.Basic

/-!
# UTF-8

`Utf8.pieces` cuts a byte string into characters and ill-formed pieces, where an ill-formed piece is
the longest run that starts like a character and cannot be finished. Both ways of reading text rest
on it: `Utf8.decode?` refuses a text that holds an ill-formed piece, and `Utf8.decodeLossy` writes
U+FFFD for each.
-/

namespace ProcessorBench.Utf8

/-- A byte that continues a sequence: 80 to BF. -/
def isContinuation (b : UInt8) : Bool := 0x80 ≤ b && b < 0xC0

/-- Which second bytes may follow the first byte of a three-byte sequence: neither an overlong form
nor a surrogate is one. -/
def isSecondOfThree (first second : UInt8) : Bool :=
  if first = 0xE0 then 0xA0 ≤ second && second < 0xC0
  else if first = 0xED then 0x80 ≤ second && second < 0xA0
  else isContinuation second

/-- Which second bytes may follow the first byte of a four-byte sequence: neither an overlong form
nor a number above 10FFFF is one. -/
def isSecondOfFour (first second : UInt8) : Bool :=
  if first = 0xF0 then 0x90 ≤ second && second < 0xC0
  else if first = 0xF4 then 0x80 ≤ second && second < 0x90
  else isContinuation second

/-- The six low bits of a continuation byte. -/
def low (b : UInt8) : Nat := b.toNat % 64

/-- What a byte string that starts with `a` and goes on with `rest` begins with: a character or, for
`none`, an ill-formed piece; and how many bytes of `rest` belong to it. -/
def leading (a : UInt8) (rest : Bytes) : Option Char × Nat :=
  if a < 0x80 then (some (Char.ofNat a.toNat), 0)
  else if 0xC2 ≤ a && a < 0xE0 then
    match rest with
    | b :: _ =>
      if isContinuation b then (some (Char.ofNat (a.toNat % 32 * 64 + low b)), 1) else (none, 0)
    | [] => (none, 0)
  else if 0xE0 ≤ a && a < 0xF0 then
    match rest with
    | b :: c :: _ =>
      if !isSecondOfThree a b then (none, 0)
      else if !isContinuation c then (none, 1)
      else (some (Char.ofNat ((a.toNat % 16 * 64 + low b) * 64 + low c)), 2)
    | [b] => (none, if isSecondOfThree a b then 1 else 0)
    | [] => (none, 0)
  else if 0xF0 ≤ a && a < 0xF5 then
    match rest with
    | b :: c :: d :: _ =>
      if !isSecondOfFour a b then (none, 0)
      else if !isContinuation c then (none, 1)
      else if !isContinuation d then (none, 2)
      else (some (Char.ofNat (((a.toNat % 8 * 64 + low b) * 64 + low c) * 64 + low d)), 3)
    | [b, c] => (none, if !isSecondOfFour a b then 0 else if isContinuation c then 2 else 1)
    | [b] => (none, if isSecondOfFour a b then 1 else 0)
    | [] => (none, 0)
  else (none, 0)

/-- The characters of a byte string in order, with `none` for each ill-formed piece. -/
def pieces : Bytes → List (Option Char)
  | [] => []
  | a :: rest => (leading a rest).1 :: pieces (rest.drop (leading a rest).2)
termination_by bytes => bytes.length
decreasing_by simp only [List.length_cons, List.length_drop]; omega

/-- The bytes of a text. -/
def encode (text : String) : Bytes := text.toList.flatMap String.utf8EncodeChar

/-- The text of a byte string without ill-formed pieces. -/
def decode? (bytes : Bytes) : Option String := (pieces bytes).mapM id |>.map String.ofList

/-- The text of any byte string, U+FFFD standing for each ill-formed piece. -/
def decodeLossy (bytes : Bytes) : String :=
  String.ofList ((pieces bytes).map (·.getD '\uFFFD'))

end ProcessorBench.Utf8
