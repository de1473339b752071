import MarketScan.Vocabulary

/-!
# Comparisons and connectives

The closed vocabularies of a filter: what a condition compares, and how conditions are joined. There
is no negation; a comparison has a complementary one instead. A term has a code, by which documents
hold it, and a word, as which it is printed.

* `Comparison.find?_code`, `Connective.find?_code` — a code leads back to its term
-/

namespace MarketScan

/-! ## Comparisons -/

/-- What a condition asks of a field. -/
inductive Comparison where
  | greater
  | greaterOrEqual
  | less
  | lessOrEqual
  | equal
  | notEqual
  | inRange
  | notInRange
  | inDayRange
  | inWeekRange
  | inMonthRange
  | abovePercent
  | belowPercent
  | inRangePercent
  | notInRangePercent
  | crosses
  | crossesAbove
  | crossesBelow
  | like
  | notLike
  | has
  | hasNoneOf
  | empty
  | notEmpty
deriving DecidableEq

namespace Comparison

/-- The code of a comparison in a document. -/
def code : Comparison → String
  | .greater => "greater"
  | .greaterOrEqual => "egreater"
  | .less => "less"
  | .lessOrEqual => "eless"
  | .equal => "equal"
  | .notEqual => "nequal"
  | .inRange => "in_range"
  | .notInRange => "not_in_range"
  | .inDayRange => "in_day_range"
  | .inWeekRange => "in_week_range"
  | .inMonthRange => "in_month_range"
  | .abovePercent => "above%"
  | .belowPercent => "below%"
  | .inRangePercent => "in_range%"
  | .notInRangePercent => "not_in_range%"
  | .crosses => "crosses"
  | .crossesAbove => "crosses_above"
  | .crossesBelow => "crosses_below"
  | .like => "match"
  | .notLike => "nmatch"
  | .has => "has"
  | .hasNoneOf => "has_none_of"
  | .empty => "empty"
  | .notEmpty => "nempty"

/-- The word that a comparison is printed as. -/
def word : Comparison → String
  | .greater => "greater"
  | .greaterOrEqual => "egreater"
  | .less => "less"
  | .lessOrEqual => "eless"
  | .equal => "equal"
  | .notEqual => "nequal"
  | .inRange => "in_range"
  | .notInRange => "not_in_range"
  | .inDayRange => "in_day_range"
  | .inWeekRange => "in_week_range"
  | .inMonthRange => "in_month_range"
  | .abovePercent => "above%"
  | .belowPercent => "below%"
  | .inRangePercent => "in_range%"
  | .notInRangePercent => "not_in_range%"
  | .crosses => "crosses"
  | .crossesAbove => "crosses_above"
  | .crossesBelow => "crosses_below"
  | .like => "match"
  | .notLike => "nmatch"
  | .has => "has"
  | .hasNoneOf => "has_none_of"
  | .empty => "empty"
  | .notEmpty => "nempty"

instance : ToString Comparison := ⟨word⟩

/-- All comparisons, in the order in which messages list them. -/
def all : List Comparison :=
  [.greater, .greaterOrEqual, .less, .lessOrEqual, .equal, .notEqual, .inRange, .notInRange,
   .inDayRange, .inWeekRange, .inMonthRange, .abovePercent, .belowPercent, .inRangePercent,
   .notInRangePercent, .crosses, .crossesAbove, .crossesBelow, .like, .notLike, .has, .hasNoneOf,
   .empty, .notEmpty]

def vocabulary : Vocabulary Comparison := ⟨all, code⟩

/-- Comparisons that take no operand. -/
def isNullary (c : Comparison) : Bool := c == .empty || c == .notEmpty

def json (c : Comparison) : Json := vocabulary.json c

theorem find?_code (c : Comparison) : vocabulary.find? c.code = some c := by
  cases c <;> decide

end Comparison

/-! ## Connectives -/

/-- How the operands of a filter node are joined. -/
inductive Connective where
  | and
  | or
deriving DecidableEq

namespace Connective

/-- The code of a connective in a document. -/
def code : Connective → String
  | .and => "and"
  | .or => "or"

/-- The word that a connective is printed as. -/
def word : Connective → String
  | .and => "and"
  | .or => "or"

instance : ToString Connective := ⟨word⟩

def vocabulary : Vocabulary Connective := ⟨[.and, .or], code⟩

def json (c : Connective) : Json := vocabulary.json c

theorem find?_code (c : Connective) : vocabulary.find? c.code = some c := by
  cases c <;> decide

end Connective

end MarketScan
