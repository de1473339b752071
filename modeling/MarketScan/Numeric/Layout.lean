import MarketScan.Numeric.Decimal

/-!
# Writing floating numbers

A `Layout` says how the shortest digits of a number are set: which exponents are written with a
plain point and what a whole number looks like. The digits themselves do not depend on it.
-/

namespace MarketScan.Numeric

/-- A way to write floating numbers. -/
structure Layout where
  /-- Which of two equally near numerals is written. -/
  tie : Tie
  /-- Whether a number whose leading digit stands for `10 ^ e` is written without an exponent. -/
  positional : Int → Bool
  /-- Whether a whole number ends in a point and a zero. -/
  pointed : Bool

namespace Layout

/-- What follows the digits of a whole number. -/
def wholeMark (L : Layout) : List Char := if L.pointed then ['.', '0'] else []

/-- Digits with a plain point. -/
def plain (L : Layout) (d : Decimal) : List Char :=
  let ds := digits d.coefficient
  if 0 ≤ d.exponent then ds ++ List.replicate d.exponent.toNat '0' ++ L.wholeMark
  else if 0 ≤ d.leading then
    ds.take (d.leading.toNat + 1) ++ '.' :: ds.drop (d.leading.toNat + 1)
  else ['0', '.'] ++ List.replicate (-d.leading - 1).toNat '0' ++ ds

/-- One digit before the point, and an exponent that always has its sign. -/
def scientific (d : Decimal) : List Char :=
  let mark := if d.leading < 0 then '-' else '+'
  let mantissa := match digits d.coefficient with
    | [] => []
    | [c] => [c]
    | c :: cs => c :: '.' :: cs
  mantissa ++ 'e' :: mark :: digits d.leading.natAbs

/-- The text of a finite number. -/
def write (L : Layout) (x : Binary64) : List Char :=
  let d := x.shortest L.tie
  let sign := if x.negative then ['-'] else []
  sign ++ if L.positional d.leading then L.plain d else scientific d

/-- The text of any number. -/
def writeExtended (L : Layout) : Extended → List Char
  | .finite x => L.write x
  | .infinite negative => if negative then "-inf".toList else "inf".toList
  | .nan => "NaN".toList

end Layout

end MarketScan.Numeric
