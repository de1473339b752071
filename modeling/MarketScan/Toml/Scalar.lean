import MarketScan.Toml.Moment
import MarketScan.Toml.Value

/-!
# Scalars without quotation marks

Truth values, numbers, dates and times, each read from its whole text. A text is taken for a date or a
time when a hyphen or a colon follows its first digits, for a number with a fraction or an exponent
when a point or an `e` comes after them, and for a whole number otherwise.

Reading a whole number in base ten looks only at its first digits and at the characters beside its
underscores, so the numeral may hold characters that are no digits. It is for the reader of the
numeral to refuse them.

* `Scalar.read?`
-/

namespace MarketScan.Toml.Scalar

open Numeric (Decimal ofDigits)

/-! ## Signs and underscores -/

/-- A sign, whether it is a minus, and what follows it. -/
def splitSign : List Char → List Char × Bool × List Char
  | '+' :: s => (['+'], false, s)
  | '-' :: s => (['-'], true, s)
  | s => ([], false, s)

/-- Whether each underscore has a digit on both sides; `after` tells whether a digit stands before
the text. -/
def groups (isDigit : Char → Bool) : Bool → List Char → Bool
  | _, [] => true
  | after, '_' :: s => after && s.head?.any isDigit && groups isDigit false s
  | _, c :: s => groups isDigit (isDigit c) s

/-- The text without underscores, each of which must stand between digits. -/
def ungrouped? (isDigit : Char → Bool) (s : List Char) : Option (List Char) :=
  if groups isDigit false s then some (s.filter (· ≠ '_')) else none

/-- A digit of base sixteen in either case. -/
def isHexDigit (c : Char) : Bool := c.isDigit || ('a' ≤ c && c ≤ 'f') || ('A' ≤ c && c ≤ 'F')

/-! ## Whole numbers -/

/-- Digits of a base after its mark. There may be none at all. -/
def inBase? (base : Nat) (isDigit : Char → Bool) (s : List Char) : Option Numeral := do
  let text ← ungrouped? isDigit s
  if text.all isDigit then some (.whole base text) else none

/-- A whole number in base ten, as it is written and without its sign. Only zero itself begins with a
zero. -/
def whole? (s value : List Char) : Option Numeral := do
  if value.head? = some '0' && value ≠ ['0'] then none
  else some (.whole 10 (← ungrouped? isHexDigit s))

/-! ## Numbers with a fraction or an exponent -/

/-- Digits and underscores at the start, at least one of them a digit, and what follows them. -/
def digitRun? (s : List Char) : Option (List Char × List Char) :=
  let ds := s.takeWhile fun c => c.isDigit || c = '_'
  if ds.any Char.isDigit then some (ds, s.dropWhile fun c => c.isDigit || c = '_') else none

/-- The value of digits with underscores. -/
def valueOf (ds : List Char) : Nat := ofDigits (ds.filter Char.isDigit)

/-- The number of digits among underscores. -/
def count (ds : List Char) : Nat := ds.countP Char.isDigit

/-- The digits of a fraction, if there is one. -/
def fraction? : List Char → Option (List Char × List Char)
  | '.' :: s => digitRun? s
  | s => some ([], s)

/-- The exponent at the end of a number, zero when there is none. -/
def exponent? : List Char → Option Int
  | [] => some 0
  | c :: s =>
    if c = 'e' || c = 'E' then do
      let (_, negative, s) := splitSign s
      let (ds, s) ← digitRun? s
      let n : Int := valueOf ds
      if s.isEmpty then some (if negative then -n else n) else none
    else none

/-- A number with a fraction, an exponent or both, as it is written and without its sign. -/
def decimal? (negative : Bool) (s value : List Char) : Option Numeral := do
  let _ ← ungrouped? Char.isDigit s
  let (whole, rest) ← digitRun? value
  let (fraction, rest) ← fraction? rest
  let exponent ← exponent? rest
  if whole.head? = some '0' && count whole ≠ 1 then none
  else some (.decimal negative
    ⟨valueOf (whole ++ fraction), exponent - count fraction⟩)

/-! ## Scalars -/

/-- Marks of a fraction or an exponent. -/
def isFractional (c : Char) : Bool := c = '.' || c = 'e' || c = 'E'

/-- A number, a date or a time that begins with a digit or an underscore after its sign. -/
def counted? (negative : Bool) (s value : List Char) : Option Scalar :=
  let rest := value.dropWhile Char.isDigit
  match rest with
  | [] => if value.isEmpty then none else (whole? s value).map .number
  | c :: _ =>
    if c = '-' || c = ':' then (Moment.read? s).map fun m => .moment (String.ofList m.write)
    else if rest.contains ' ' then none
    else if rest.any isFractional then (decimal? negative s value).map .number
    else if c = '_' then (whole? s value).map .number
    else none

/-- The scalar that a text stands for. -/
def read? (s : List Char) : Option Scalar :=
  if s = "true".toList then some (.boolean true)
  else if s = "false".toList then some (.boolean false)
  else match s with
    | '0' :: 'x' :: s => (inBase? 16 isHexDigit s).map .number
    | '0' :: 'o' :: s => (inBase? 8 (fun c => '0' ≤ c && c ≤ '7') s).map .number
    | '0' :: 'b' :: s => (inBase? 2 (fun c => c = '0' || c = '1') s).map .number
    | s =>
      let (_, negative, value) := splitSign s
      if value = "inf".toList then some (.number (.infinite negative))
      else if value = "nan".toList then some (.number .nan)
      else counted? negative s value

end MarketScan.Toml.Scalar
