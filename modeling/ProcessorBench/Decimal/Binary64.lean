/-!
# Binary floating point

A floating-point number is kept as its bits: a sign, an exponent of 8 or 11 bits and a fraction of 23
or 52 bits. `Binary64.ofBinary32` gives the double that has the value of a single, which always exists.
-/

namespace ProcessorBench.Binary64

/-- Put a double together from a sign bit, a biased exponent and a fraction. -/
def pack (sign exponent fraction : Nat) : UInt64 :=
  UInt64.ofNat ((sign <<< 63) + (exponent <<< 52) + fraction)

/-- The sign bit. -/
def sign (bits : UInt64) : Nat := bits.toNat >>> 63

/-- The biased exponent. -/
def exponent (bits : UInt64) : Nat := (bits.toNat >>> 52) % 2048

/-- The fraction. -/
def fraction (bits : UInt64) : Nat := bits.toNat % (1 <<< 52)

/-- Whether the bits are those of no number. -/
def isNaN (bits : UInt64) : Bool := exponent bits = 2047 && fraction bits ≠ 0

/-- Whether the bits are those of an infinity. -/
def isInfinite (bits : UInt64) : Bool := exponent bits = 2047 && fraction bits = 0

/-- A double that is no number. -/
def nan : UInt64 := pack 0 2047 (1 <<< 51)

/-- The double of the same value as a single. A subnormal single becomes a normal double; one that is
no number stays so and becomes quiet. -/
def ofBinary32 (bits : UInt32) : UInt64 :=
  let sign := bits.toNat >>> 31
  let exponent := (bits.toNat >>> 23) % 256
  let fraction := bits.toNat % (1 <<< 23)
  if exponent = 255 then
    if fraction = 0 then pack sign 2047 0
    else pack sign 2047 ((1 <<< 51) + (fraction <<< 29) % (1 <<< 51))
  else if exponent = 0 then
    if fraction = 0 then pack sign 0 0
    else
      let leading := fraction.log2
      pack sign (leading + 1023 - 149) ((fraction - (1 <<< leading)) <<< (52 - leading))
  else pack sign (exponent + 1023 - 127) (fraction <<< 29)

end ProcessorBench.Binary64
