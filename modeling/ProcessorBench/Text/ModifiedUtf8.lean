import ProcessorBench.Bytes.Basic
import ProcessorBench.ClassFile.Error
import ProcessorBench.Text.Utf16

/-!
# Modified UTF-8

The encoding of text in a constant pool. It differs from UTF-8 in two ways: U+0000 takes the two
bytes C0 80, and a character above U+FFFF is a surrogate pair whose halves take three bytes each. So
every sequence stands for one 16-bit unit, and decoding is two steps: bytes to units
(`ModifiedUtf8.units`), units to text (`Utf16.decode`).
-/

namespace ProcessorBench.ModifiedUtf8

/-- The six low bits of a byte that continues a sequence (80 to BF) at the given offset. -/
def continuation (offset : Nat) (b : UInt8) : Except ClassError Nat :=
  if 0x80 ≤ b ∧ b < 0xC0 then .ok (b.toNat % 64) else .error (.badUtf8 offset)

/-- The 16-bit units of the sequences that start at `offset`. A sequence has one byte (01 to 7F), two
(C0 to DF and a continuation) or three (E0 to EF and two continuations). -/
def unitsFrom (offset : Nat) : Bytes → Except ClassError (List UInt16)
  | [] => .ok []
  | a :: rest =>
    if 0 < a ∧ a < 0x80 then
      return UInt16.ofNat a.toNat :: (← unitsFrom (offset + 1) rest)
    else if 0xC0 ≤ a ∧ a < 0xE0 then
      match rest with
      | b :: rest => do
        let b ← continuation (offset + 1) b
        return UInt16.ofNat (a.toNat % 32 * 64 + b) :: (← unitsFrom (offset + 2) rest)
      | [] => .error (.badUtf8 (offset + 1))
    else if 0xE0 ≤ a ∧ a < 0xF0 then
      match rest with
      | b :: rest => do
        let b ← continuation (offset + 1) b
        match rest with
        | c :: rest => do
          let c ← continuation (offset + 2) c
          return UInt16.ofNat ((a.toNat % 16 * 64 + b) * 64 + c) ::
            (← unitsFrom (offset + 3) rest)
        | [] => .error (.badUtf8 (offset + 2))
      | [] => .error (.badUtf8 (offset + 1))
    else .error (.badUtf8 offset)

/-- The 16-bit units of a byte string. -/
def units (bytes : Bytes) : Except ClassError (List UInt16) := unitsFrom 0 bytes

/-- The text of a byte string. An unpaired surrogate is reported by the number of characters that
precede it. -/
def decode (bytes : Bytes) : Except ClassError String := do
  match Utf16.decode (← units bytes) with
  | .ok text => return String.ofList text
  | .error done => throw (.badUtf8 done)

/-- The bytes of one 16-bit unit. -/
def encodeUnit (unit : UInt16) : Bytes :=
  let n := unit.toNat
  if 0 < n ∧ n < 0x80 then [UInt8.ofNat n]
  else if n < 0x800 then [UInt8.ofNat (0xC0 + n / 64), UInt8.ofNat (0x80 + n % 64)]
  else
    [UInt8.ofNat (0xE0 + n / 4096), UInt8.ofNat (0x80 + n / 64 % 64), UInt8.ofNat (0x80 + n % 64)]

/-- The bytes of a text. -/
def encode (text : String) : Bytes := (Utf16.encode text.toList).flatMap encodeUnit

end ProcessorBench.ModifiedUtf8
