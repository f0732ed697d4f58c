import ProcessorBench.Decimal.Shortest

/-!
# How a number is written

`DecimalLayout.write` writes a decimal number in digits, with its point in place or with an exponent,
and `DecimalLayout.writeBinary64` a double.
-/

namespace ProcessorBench

/-- Choices in writing a number. A number `0.d₁d₂… · 10 ^ k` is written with its point in place if
`firstPlain ≤ k ≤ lastPlain`, and with an exponent otherwise. -/
structure DecimalLayout where
  firstPlain : Int
  lastPlain : Int
  nan : String
  infinity : String

namespace DecimalLayout

/-- Write digits with the point after the first `point` of them. Zeros fill the places between the
digits and the point, and at least one digit stands on each side of it. -/
def plain (digits : List Char) (point : Int) : List Char :=
  if point ≤ 0 then ['0', '.'] ++ List.replicate (-point).toNat '0' ++ digits
  else
    let whole := digits.take point.toNat
    let rest := digits.drop point.toNat
    let zeros := List.replicate (point.toNat - digits.length) '0'
    whole ++ zeros ++ ['.'] ++ if rest.isEmpty then ['0'] else rest

/-- Write digits with the point after the first, and the exponent that makes up for it. -/
def scientific (digits : List Char) (point : Int) : List Char :=
  let rest := digits.drop 1
  digits.take 1 ++ (if rest.isEmpty then [] else '.' :: rest) ++ ['e'] ++
    (toString (point - 1)).toList

/-- Write a positive decimal number. -/
def write (layout : DecimalLayout) (number : Decimal) : List Char :=
  let digits := Nat.toDigits 10 number.digits
  let point := digits.length + number.exponent
  if layout.firstPlain ≤ point && point ≤ layout.lastPlain then plain digits point
  else scientific digits point

/-- Write a double. A zero keeps its sign. -/
def writeBinary64 (layout : DecimalLayout) (bits : UInt64) : String :=
  if Binary64.isNaN bits then layout.nan
  else
    let sign := if Binary64.sign bits = 1 then "-" else ""
    let magnitude :=
      if Binary64.isInfinite bits then layout.infinity
      else if Binary64.exponent bits = 0 && Binary64.fraction bits = 0 then "0.0"
      else String.ofList (layout.write (Shortest.ofFinite bits))
    sign ++ magnitude

end DecimalLayout

end ProcessorBench
