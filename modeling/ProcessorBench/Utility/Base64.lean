import ProcessorBench.Utility.Streams

/-!
# Base 64

The utility `base64`, which writes bytes as text, three of them in four characters, and reads them back.
-/

namespace ProcessorBench.Base64

/-- The characters of the digits. -/
def alphabet : List Char :=
  "ABCDEFGHIJKLMNOPQRSTUVWXYZabcdefghijklmnopqrstuvwxyz0123456789+/".toList

/-- The character of a digit. -/
def digit (n : Nat) : Char := alphabet.getD n '='

/-- The text of some bytes. -/
def encode : Bytes → List Char
  | a :: b :: c :: rest =>
    let n := Bytes.toNat [a, b, c]
    digit (n / 262144) :: digit (n / 4096 % 64) :: digit (n / 64 % 64) :: digit (n % 64) :: encode rest
  | [a, b] =>
    let n := Bytes.toNat [a, b, 0]
    [digit (n / 262144), digit (n / 4096 % 64), digit (n / 64 % 64), '=']
  | [a] =>
    let n := Bytes.toNat [a, 0, 0]
    [digit (n / 262144), digit (n / 4096 % 64), '=', '=']
  | [] => []

/-- The bytes of some digits, and whether the digits are complete. -/
def decode : List Char → Bytes × Bool
  | a :: b :: c :: d :: rest =>
    match alphabet.idxOf? a, alphabet.idxOf? b, alphabet.idxOf? c, alphabet.idxOf? d with
    | some w, some x, some y, some z =>
      let (more, complete) := decode rest
      (Bytes.ofNat 3 (((w * 64 + x) * 64 + y) * 64 + z) ++ more, complete)
    | some w, some x, some y, none =>
      ((Bytes.ofNat 3 (((w * 64 + x) * 64 + y) * 64)).take 2, d = '=' && rest = [])
    | some w, some x, none, _ =>
      ((Bytes.ofNat 3 (((w * 64 + x) * 64) * 64)).take 1, c = '=' && d = '=' && rest = [])
    | _, _, _, _ => ([], false)
  | [] => ([], true)
  | [a, b, c] =>
    match alphabet.idxOf? a, alphabet.idxOf? b, alphabet.idxOf? c with
    | some w, some x, some y => ((Bytes.ofNat 3 (((w * 64 + x) * 64 + y) * 64)).take 2, false)
    | some w, some x, none => ((Bytes.ofNat 3 (((w * 64 + x) * 64) * 64)).take 1, false)
    | _, _, _ => ([], false)
  | [a, b] =>
    match alphabet.idxOf? a, alphabet.idxOf? b with
    | some w, some x => ((Bytes.ofNat 3 (((w * 64 + x) * 64) * 64)).take 1, false)
    | _, _ => ([], false)
  | [_] => ([], false)

/-- A text in lines of a length. A length of 0 makes one line without an end. -/
def wrapped (width : Nat) : Nat → List Char → List Char
  | 0, _ => []
  | fuel + 1, text =>
    if text = [] then []
    else if width = 0 then text
    else text.take width ++ '\n' :: wrapped width fuel (text.drop width)

/-- Write the content of the operand as text, or read it back. -/
def run : ProcessStep Status :=
  Options.withOptions "di" "w" fun o => do
    let (contents, isThere) ← Streams.contentsOf (o.operands.take 1)
    let content := contents.flatMap (·.2)
    if o.has 'd' then
      let digits := (Latin1.decode content).filter fun c =>
        c ≠ '\n' && (!o.has 'i' || c = '=' || alphabet.contains c)
      let (bytes, complete) := decode digits
      Process.write Process.standardOutput bytes
      if !complete then Process.complain "invalid input"
      return if complete && isThere then 0 else 1
    else
      let width := ((o.value? 'w').bind (·.toNat?)).getD 76
      let text := encode content
      Process.write Process.standardOutput (Latin1.encode (wrapped width (text.length + 1) text))
      return if isThere then 0 else 1

end ProcessorBench.Base64
