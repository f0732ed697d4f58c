import ProcessorBench.Decimal.Binary64

/-!
# The shortest decimal that reads back

A finite double stands for all reals that round to it. `Shortest.ofFinite` picks among these the
decimal `digits · 10 ^ exponent` with the greatest exponent, hence the fewest digits; of two such, the
one nearer to the double. All comparisons are of natural numbers.
-/

namespace ProcessorBench

/-- A decimal number `digits · 10 ^ exponent`. -/
structure Decimal where
  digits : Nat
  exponent : Int
deriving Repr, DecidableEq

namespace Shortest

/-- The reals that round to a positive double, in units of `2 ^ exponent`: those between `low` and
`high`, the two ends among them when `closed`. The double itself is `value` units. -/
structure Interval where
  low : Nat
  value : Nat
  high : Nat
  exponent : Int
  closed : Bool

/-- The interval of a finite positive double, in quarters of its last place. Below a power of two the
doubles lie twice as close, so the lower half is half as wide there. -/
def intervalOf (bits : UInt64) : Interval :=
  let exponent := Binary64.exponent bits
  let fraction := Binary64.fraction bits
  let mantissa := if exponent = 0 then fraction else fraction + (1 <<< 52)
  let isPower := fraction = 0 && exponent > 1
  { low := 4 * mantissa - if isPower then 1 else 2
    value := 4 * mantissa
    high := 4 * mantissa + 2
    exponent := (max exponent 1 : Nat) - 1077
    closed := mantissa % 2 = 0 }

/-- A multiple of `10 ^ exponent` in the interval: of the two next to the double the one that lies in
it, the nearer one if both do, and the greater one if they are equally near. -/
def multipleOf? (interval : Interval) (exponent : Int) : Option Nat :=
  let scale n := (n * Nat.pow 10 (-exponent).toNat) <<< interval.exponent.toNat
  let unit := (Nat.pow 10 exponent.toNat) <<< (-interval.exponent).toNat
  let inside digits :=
    if interval.closed then
      scale interval.low ≤ digits * unit && digits * unit ≤ scale interval.high
    else scale interval.low < digits * unit && digits * unit < scale interval.high
  let below := scale interval.value / unit
  let above := below + 1
  let isAboveNearer := above * unit - scale interval.value ≤ scale interval.value - below * unit
  if inside above && (isAboveNearer || !inside below) then some above
  else if inside below then some below
  else none

/-- The greatest exponent that is tried: every double is below `10 ^ 309`. -/
def greatestExponent : Int := 309

/-- The number of exponents that are tried: below `10 ^ (-324)` all intervals are wide enough. -/
def exponentCount : Nat := 640

/-- The shortest decimal for a finite positive double. -/
def ofFinite (bits : UInt64) : Decimal :=
  let interval := intervalOf bits
  let found := (List.range exponentCount).findSome? fun i =>
    let exponent := greatestExponent - (i : Nat)
    (multipleOf? interval exponent).map fun digits => ⟨digits, exponent⟩
  found.getD ⟨0, 0⟩

end Shortest

end ProcessorBench
