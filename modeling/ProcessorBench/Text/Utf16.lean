/-!
# UTF-16

Characters as 16-bit units: one unit below U+10000, a high and a low surrogate above. Decoding fails
at the first surrogate that has no partner and says how many characters came before it.
-/

namespace ProcessorBench.Utf16

/-- First half of a pair: D800 to DBFF. -/
def isHigh (unit : UInt16) : Bool := 0xD800 ≤ unit && unit < 0xDC00

/-- Second half of a pair: DC00 to DFFF. -/
def isLow (unit : UInt16) : Bool := 0xDC00 ≤ unit && unit < 0xE000

/-- The character a pair of surrogates stands for. -/
def pair (high low : UInt16) : Char :=
  Char.ofNat (0x10000 + (high.toNat - 0xD800) * 0x400 + (low.toNat - 0xDC00))

/-- The units of one character. -/
def encodeChar (c : Char) : List UInt16 :=
  if c.toNat < 0x10000 then [UInt16.ofNat c.toNat]
  else
    let above := c.toNat - 0x10000
    [UInt16.ofNat (0xD800 + above / 0x400), UInt16.ofNat (0xDC00 + above % 0x400)]

/-- The units of a text. -/
def encode (text : List Char) : List UInt16 := text.flatMap encodeChar

/-- The text of a run of units that follows `done` characters. The error is the number of characters
before the first surrogate without a partner. -/
def decodeAfter (done : Nat) : List UInt16 → Except Nat (List Char)
  | [] => .ok []
  | unit :: rest =>
    if isHigh unit then
      match rest with
      | low :: rest =>
        if isLow low then return pair unit low :: (← decodeAfter (done + 1) rest)
        else .error done
      | [] => .error done
    else if isLow unit then .error done
    else return Char.ofNat unit.toNat :: (← decodeAfter (done + 1) rest)

/-- The text of a run of units, or the number of characters before the first unpaired surrogate. -/
def decode (units : List UInt16) : Except Nat (List Char) := decodeAfter 0 units

end ProcessorBench.Utf16
