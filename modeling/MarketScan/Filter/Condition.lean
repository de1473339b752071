import MarketScan.Filter.Comparison
import MarketScan.Filter.Operand

/-!
# Conditions on a field

A `Condition` is a field, a comparison and, unless the comparison takes none, an operand. A `Column`
names a field, and a `Test` is what can be said about a column; each test has one comparison and one
way to put its arguments into the operand.

* `Condition.json` — the condition in a document
* `Column.test` — the condition that a test makes of a column
-/

namespace MarketScan

/-! ## Conditions -/

/-- One condition on a field. -/
structure Condition where
  field : String
  comparison : Comparison
  operand : Option Operand

namespace Condition

/-- The condition in a document; without an operand the key is left out. -/
def json (c : Condition) : Json :=
  .object <| [("left", .string c.field), ("operation", c.comparison.json)] ++
    match c.operand with
    | some o => [("right", o.json)]
    | none => []

/-- Equality of optional operands. -/
def sameOperand : Option Operand → Option Operand → Bool
  | none, none => true
  | some o, some p => o.same p
  | _, _ => false

def same (c d : Condition) : Bool :=
  c.field == d.field && c.comparison == d.comparison && sameOperand c.operand d.operand

/-- Equality of conditions place by place. -/
def sameAll : List Condition → List Condition → Bool
  | [], [] => true
  | c :: cs, d :: ds => c.same d && sameAll cs ds
  | _, _ => false

end Condition

/-! ## Tests on a column -/

/-- A field by its name. Names are not checked. -/
structure Column where
  name : String
deriving DecidableEq

/-- What can be said about a column. -/
inductive Test where
  | gt (other : Operand)
  | ge (other : Operand)
  | lt (other : Operand)
  | le (other : Operand)
  | eq (other : Operand)
  | ne (other : Operand)
  /-- From `low` to `high`, both included. -/
  | between (low high : Operand)
  | notBetween (low high : Operand)
  /-- Days from today, and so for weeks and months. -/
  | inDayRange (first last : Operand)
  | inWeekRange (first last : Operand)
  | inMonthRange (first last : Operand)
  /-- More than `ratio` times `base`: `1.03` stands for three percent above. -/
  | abovePercent (base ratio : Operand)
  | belowPercent (base ratio : Operand)
  | betweenPercent (base low high : Operand)
  | notBetweenPercent (base low high : Operand)
  | crosses (other : Operand)
  | crossesAbove (other : Operand)
  | crossesBelow (other : Operand)
  | like (pattern : Operand)
  | notLike (pattern : Operand)
  | has (values : List Operand)
  | hasNoneOf (values : List Operand)
  /-- Another word for `has`. -/
  | isIn (values : List Operand)
  /-- Another word for `hasNoneOf`. -/
  | notIn (values : List Operand)
  | empty
  | notEmpty

namespace Test

/-- The comparison that a test makes. -/
def comparison : Test → Comparison
  | .gt _ => .greater
  | .ge _ => .greaterOrEqual
  | .lt _ => .less
  | .le _ => .lessOrEqual
  | .eq _ => .equal
  | .ne _ => .notEqual
  | .between _ _ => .inRange
  | .notBetween _ _ => .notInRange
  | .inDayRange _ _ => .inDayRange
  | .inWeekRange _ _ => .inWeekRange
  | .inMonthRange _ _ => .inMonthRange
  | .abovePercent _ _ => .abovePercent
  | .belowPercent _ _ => .belowPercent
  | .betweenPercent _ _ _ => .inRangePercent
  | .notBetweenPercent _ _ _ => .notInRangePercent
  | .crosses _ => .crosses
  | .crossesAbove _ => .crossesAbove
  | .crossesBelow _ => .crossesBelow
  | .like _ => .like
  | .notLike _ => .notLike
  | .has _ | .isIn _ => .has
  | .hasNoneOf _ | .notIn _ => .hasNoneOf
  | .empty => .empty
  | .notEmpty => .notEmpty

/-- The operand that holds the arguments of a test: two ends make a range, percentages and members
a list. -/
def operand? : Test → Option Operand
  | .gt x | .ge x | .lt x | .le x | .eq x | .ne x
  | .crosses x | .crossesAbove x | .crossesBelow x | .like x | .notLike x => some x
  | .between x y | .notBetween x y
  | .inDayRange x y | .inWeekRange x y | .inMonthRange x y => some (.range x y)
  | .abovePercent x y | .belowPercent x y => some (.list [x, y])
  | .betweenPercent x y z | .notBetweenPercent x y z => some (.list [x, y, z])
  | .has xs | .hasNoneOf xs | .isIn xs | .notIn xs => some (.list xs)
  | .empty | .notEmpty => none

end Test

/-- The condition that a test makes of a column. -/
def Column.test (column : Column) (t : Test) : Condition :=
  ⟨column.name, t.comparison, t.operand?⟩

end MarketScan
