import MarketScan.Numeric.Binary64

/-!
# Decimal numerals and floating numbers

A `Decimal` is a coefficient times a power of ten. Going from decimals to floating numbers there are
two rules, and going back there is one.

* `Decimal.nearest?` — the floating number nearest to the decimal
* `Decimal.scaled?` — the coefficient is rounded first, then multiplied or divided by a rounded power
  of ten, each step rounded anew
* `Binary64.shortest` — the decimal with the fewest digits among those that round to the number, and
  of these the nearest one
-/

namespace MarketScan.Numeric

/-- The number `coefficient · 10 ^ exponent`. -/
structure Decimal where
  coefficient : Nat
  exponent : Int
deriving DecidableEq

/-- The decimal digits of a natural number, most significant first. -/
def digits (n : Nat) : List Char := Nat.toDigits 10 n

/-- The value of a list of decimal digits. -/
def ofDigits (ds : List Char) : Nat := ds.foldl (fun n c => 10 * n + (c.toNat - '0'.toNat)) 0

namespace Decimal

/-- The exponent of the power of ten that the leading digit stands for. -/
def leading (d : Decimal) : Int := d.exponent + (digits d.coefficient).length - 1

/-! ## Rounding a decimal -/

/--
The floating number nearest to a decimal, `none` when it is too large.

Decimals whose leading digit stands beyond `10 ^ 400` or below `10 ^ -400` are far outside the
finite range, so their power of ten is not computed.
-/
def nearest? (negative : Bool) (d : Decimal) : Option Binary64 :=
  if d.coefficient = 0 ∨ d.leading < -400 then some (.zero negative)
  else if 400 < d.leading then none
  else
    Binary64.ofQuotient? negative (d.coefficient * Nat.pow 10 d.exponent.toNat)
      (Nat.pow 10 (-d.exponent).toNat)

/-- The largest power of ten that is a finite floating number. -/
def maxPower : Nat := 308

/-- The floating number nearest to a power of ten. -/
def power? (k : Nat) : Option Binary64 := Binary64.ofQuotient? false (Nat.pow 10 k) 1

/-- Repeated division by powers of ten not above the largest, until `k` factors of ten are divided
out or nothing is left. -/
def divided (x : Binary64) (k : Nat) : Option Binary64 :=
  if _h : k ≤ maxPower then do x.over? (← power? k)
  else if x.isZero then some x
  else do divided (← x.over? (← power? maxPower)) (k - maxPower)
termination_by k
decreasing_by simp [maxPower] at *; omega

/-- The rounded coefficient multiplied or divided by the rounded power of ten, `none` when the
result is too large. -/
def scaled? (negative : Bool) (d : Decimal) : Option Binary64 := do
  let x ← Binary64.ofQuotient? negative d.coefficient 1
  if d.exponent < 0 then divided x (-d.exponent).toNat
  else if x.isZero then some x
  else if d.exponent.toNat ≤ maxPower then x.times? (← power? d.exponent.toNat)
  else none

/-- The same number without zeros at the end of its coefficient. -/
def trimmed (d : Decimal) : Decimal :=
  let zeros := ((digits d.coefficient).reverse.takeWhile (· = '0')).length
  if d.coefficient = 0 then ⟨0, 0⟩ else ⟨d.coefficient / Nat.pow 10 zeros, d.exponent + zeros⟩

end Decimal

/-! ## The shortest numeral -/

/-- Which of two numerals that are equally near is taken. -/
inductive Tie where
  | even
  | upward
deriving DecidableEq

/-- A positive number with the interval of all numbers that round to it, over one denominator. -/
structure Interval where
  low : Nat
  value : Nat
  high : Nat
  denominator : Nat
  /-- Whether the ends belong to the interval. -/
  closed : Bool

namespace Interval

/-- Whether `n / scale` lies in the interval whose bounds are multiplied by `factor`. -/
def contains (i : Interval) (n scale factor : Nat) : Bool :=
  let x := n * (i.denominator * scale)
  let low := i.low * factor
  let high := i.high * factor
  if i.closed then low ≤ x && x ≤ high else low < x && x < high

/-- The point of the grid of spacing `10 ^ step` that lies in the interval and is nearest to the
value, if there is one. -/
def gridPoint? (tie : Tie) (i : Interval) (step : Int) : Option Nat :=
  let factor := Nat.pow 10 (-step).toNat
  let scale := Nat.pow 10 step.toNat
  let value := i.value * factor
  let unit := i.denominator * scale
  let below := value / unit
  match i.contains below scale factor, i.contains (below + 1) scale factor with
  | true, false => some below
  | false, true => some (below + 1)
  | false, false => none
  | true, true =>
    let twice := 2 * value
    let middle := (2 * below + 1) * unit
    if twice < middle then some below
    else if middle < twice then some (below + 1)
    else match tie with
      | .even => some (if below % 2 = 0 then below else below + 1)
      | .upward => some (below + 1)

/-- The exponent of the leading digit of the value. -/
def leading (i : Interval) : Int :=
  let lift : Nat := 400
  (digits (i.value * Nat.pow 10 lift / i.denominator)).length - 1 - lift

/-- The first grid with a point in the interval, tried with `count` digits and up to `more` further
ones. -/
def search (tie : Tie) (i : Interval) (leading : Int) : Nat → Nat → Decimal
  | 0, count => ⟨i.value / i.denominator, count⟩
  | more + 1, count =>
    let step := leading + 1 - count
    match i.gridPoint? tie step with
    | some n => ⟨n, step⟩
    | none => search tie i leading more (count + 1)

end Interval

namespace Binary64

/--
The numbers that round to `x`. Half a spacing reaches to either side, but only a quarter below a
power of two, where the spacing halves. The ends round to `x` when its significand is even.
-/
def interval (x : Binary64) : Interval :=
  let m := Format.double.significand x.rank
  let unit := Nat.pow 2 (Format.double.shift x.rank)
  let below := if m = Format.double.binade ∧ 0 < Format.double.shift x.rank then 1 else 2
  { low := (4 * m - below) * unit
    value := 4 * m * unit
    high := (4 * m + 2) * unit
    denominator := 4 * denominator
    closed := m % 2 == 0 }

/-- The shortest decimal that rounds to the number; at most 17 digits are ever needed. -/
def shortest (tie : Tie) (x : Binary64) : Decimal :=
  if x.isZero then ⟨0, 0⟩
  else (x.interval.search tie x.interval.leading 17 1).trimmed

end Binary64

end MarketScan.Numeric
