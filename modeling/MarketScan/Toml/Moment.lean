import MarketScan.Numeric.Decimal

/-!
# Dates and times

A date, a time, or both with an optional offset, read from their text and written in normal form. A
time may leave out its seconds. The parts must be in the ranges of the calendar; a minute may have a
leap second.

* `Moment.read?`, `Moment.write`
-/

namespace MarketScan.Toml

open Numeric (digits ofDigits)

structure Date where
  year : Nat
  month : Nat
  day : Nat

/-- A time of day; `second` and `fraction` may be left out. The fraction is held by its digits, nine
at most and none of them a zero at the end. -/
structure Time where
  hour : Nat
  minute : Nat
  second : Option Nat
  fraction : Option (List Char)

/-- The difference from universal time. -/
inductive Offset where
  | universal
  | minutes (n : Int)

inductive Moment where
  | date (d : Date)
  | time (t : Time)
  | dateTime (d : Date) (t : Time) (offset : Option Offset)

namespace Moment

/-! ## The calendar -/

def isLeapYear (year : Nat) : Bool := year % 4 = 0 && (year % 100 ≠ 0 || year % 400 = 0)

def daysInMonth (year month : Nat) : Nat :=
  if month = 2 then if isLeapYear year then 29 else 28
  else if month = 4 || month = 6 || month = 9 || month = 11 then 30
  else 31

/-! ## Reading -/

/-- A number of exactly `n` digits. -/
def number? (n : Nat) (s : List Char) : Option (Nat × List Char) :=
  let ds := s.take n
  if ds.length = n && ds.all Char.isDigit then some (ofDigits ds, s.drop n) else none

/-- The number, if it is in a range. -/
def within (low high n : Nat) : Option Nat := if low ≤ n && n ≤ high then some n else none

/-- A number of exactly `n` digits after a mark. -/
def after? (mark : Char) (n : Nat) : List Char → Option (Nat × List Char)
  | [] => none
  | c :: s => if c = mark then number? n s else none

def readDate? (s : List Char) : Option (Date × List Char) := do
  let (year, s) ← number? 4 s
  let (month, s) ← after? '-' 2 s
  let (day, s) ← after? '-' 2 s
  let month ← within 1 12 month
  let day ← within 1 (daysInMonth year month) day
  some (⟨year, month, day⟩, s)

/-- The digits of a fraction without those beyond the ninth and without zeros at the end. -/
def trimFraction (ds : List Char) : List Char :=
  ((ds.take 9).reverse.dropWhile (· = '0')).reverse

def readTime? (s : List Char) : Option (Time × List Char) := do
  let (hour, s) ← number? 2 s
  let hour ← within 0 23 hour
  let (minute, s) ← after? ':' 2 s
  let minute ← within 0 59 minute
  match s with
  | ':' :: s => do
    let (second, s) ← number? 2 s
    let second ← within 0 60 second
    match s with
    | '.' :: s =>
      let fraction := s.takeWhile Char.isDigit
      if fraction.isEmpty then none
      else some (⟨hour, minute, some second, some (trimFraction fraction)⟩, s.dropWhile Char.isDigit)
    | s => some (⟨hour, minute, some second, none⟩, s)
  | s => some (⟨hour, minute, none, none⟩, s)

/-- An offset, or nothing, up to the end. -/
def readOffset? : List Char → Option (Option Offset)
  | [] => some none
  | ['Z'] | ['z'] => some (some .universal)
  | c :: s => do
    let (hours, s) ← number? 2 s
    let hours ← within 0 23 hours
    let (minutes, s) ← after? ':' 2 s
    let minutes ← within 0 59 minutes
    let total : Int := 60 * hours + minutes
    if !s.isEmpty then none
    else if c = '+' then some (some (.minutes total))
    else if c = '-' then some (some (.minutes (-total)))
    else none

/-- A date, a time, or both, up to the end. -/
def read? (s : List Char) : Option Moment :=
  match readDate? s with
  | some (d, []) => some (.date d)
  | some (d, mark :: s) =>
    if mark = 'T' || mark = 't' || mark = ' ' then do
      let (t, s) ← readTime? s
      let offset ← readOffset? s
      some (.dateTime d t offset)
    else none
  | none =>
    match readTime? s with
    | some (t, []) => some (.time t)
    | _ => none

/-! ## Writing -/

/-- A number with zeros before it up to `width`. -/
def padded (width n : Nat) : List Char :=
  let ds := digits n
  List.replicate (width - ds.length) '0' ++ ds

def writeDate (d : Date) : List Char :=
  padded 4 d.year ++ '-' :: padded 2 d.month ++ '-' :: padded 2 d.day

def writeTime (t : Time) : List Char :=
  padded 2 t.hour ++ ':' :: padded 2 t.minute ++
  (match t.second with
    | some second => ':' :: padded 2 second
    | none => []) ++
  (match t.fraction with
    | some [] => ['.', '0']
    | some ds => '.' :: ds
    | none => [])

def writeOffset : Offset → List Char
  | .universal => ['Z']
  | .minutes n =>
    (if n < 0 then '-' else '+') :: padded 2 (n.natAbs / 60) ++ ':' :: padded 2 (n.natAbs % 60)

def write : Moment → List Char
  | .date d => writeDate d
  | .time t => writeTime t
  | .dateTime d t offset =>
    writeDate d ++ 'T' :: writeTime t ++
    match offset with
    | some o => writeOffset o
    | none => []

end Moment

end MarketScan.Toml
