import MarketScan.Filter.Condition
import MarketScan.Proofs.Json.Injective
import MarketScan.Proofs.Vocabulary

/-!
# Tests are told apart by their texts

The text of a test names the column and the method, by a code of its own, and holds the arguments in one
operand: alone, or put together in an array. Which of the two goes with the method, so that an argument
that is an array itself is not taken for arguments put together. What is written therefore gives back
the column, the method and every argument as it is written.

* `Test.Method` — the methods, each with its code and the shape of its right side
* `Column.writes_test` — what each test is written as
* `Column.text_test_eq_iff` — when two tests have one text
-/

namespace MarketScan

/-! ## Methods -/

namespace Test

/-- The methods of tests. Two words for one test are one method. -/
inductive Method where
  | gt
  | ge
  | lt
  | le
  | eq
  | ne
  | between
  | notBetween
  | inDayRange
  | inWeekRange
  | inMonthRange
  | abovePercent
  | belowPercent
  | betweenPercent
  | notBetweenPercent
  | crosses
  | crossesAbove
  | crossesBelow
  | like
  | notLike
  | has
  | hasNoneOf
  | empty
  | notEmpty
deriving DecidableEq

def method : Test → Method
  | .gt _ => .gt
  | .ge _ => .ge
  | .lt _ => .lt
  | .le _ => .le
  | .eq _ => .eq
  | .ne _ => .ne
  | .between _ _ => .between
  | .notBetween _ _ => .notBetween
  | .inDayRange _ _ => .inDayRange
  | .inWeekRange _ _ => .inWeekRange
  | .inMonthRange _ _ => .inMonthRange
  | .abovePercent _ _ => .abovePercent
  | .belowPercent _ _ => .belowPercent
  | .betweenPercent _ _ _ => .betweenPercent
  | .notBetweenPercent _ _ _ => .notBetweenPercent
  | .crosses _ => .crosses
  | .crossesAbove _ => .crossesAbove
  | .crossesBelow _ => .crossesBelow
  | .like _ => .like
  | .notLike _ => .notLike
  | .has _ | .isIn _ => .has
  | .hasNoneOf _ | .notIn _ => .hasNoneOf
  | .empty => .empty
  | .notEmpty => .notEmpty

/-- The arguments of a test, in order. -/
def arguments : Test → List Operand
  | .gt x | .ge x | .lt x | .le x | .eq x | .ne x
  | .crosses x | .crossesAbove x | .crossesBelow x | .like x | .notLike x => [x]
  | .between x y | .notBetween x y
  | .inDayRange x y | .inWeekRange x y | .inMonthRange x y
  | .abovePercent x y | .belowPercent x y => [x, y]
  | .betweenPercent x y z | .notBetweenPercent x y z => [x, y, z]
  | .has xs | .hasNoneOf xs | .isIn xs | .notIn xs => xs
  | .empty | .notEmpty => []

namespace Method

/-- The code of each method. -/
def code : Method → String
  | .gt => "greater"
  | .ge => "egreater"
  | .lt => "less"
  | .le => "eless"
  | .eq => "equal"
  | .ne => "nequal"
  | .between => "in_range"
  | .notBetween => "not_in_range"
  | .inDayRange => "in_day_range"
  | .inWeekRange => "in_week_range"
  | .inMonthRange => "in_month_range"
  | .abovePercent => "above%"
  | .belowPercent => "below%"
  | .betweenPercent => "in_range%"
  | .notBetweenPercent => "not_in_range%"
  | .crosses => "crosses"
  | .crossesAbove => "crosses_above"
  | .crossesBelow => "crosses_below"
  | .like => "match"
  | .notLike => "nmatch"
  | .has => "has"
  | .hasNoneOf => "has_none_of"
  | .empty => "empty"
  | .notEmpty => "nempty"

def vocabulary : Vocabulary Method where
  terms := [.gt, .ge, .lt, .le, .eq, .ne, .between, .notBetween, .inDayRange, .inWeekRange,
    .inMonthRange, .abovePercent, .belowPercent, .betweenPercent, .notBetweenPercent, .crosses,
    .crossesAbove, .crossesBelow, .like, .notLike, .has, .hasNoneOf, .empty, .notEmpty]
  code := code

theorem find?_code (k : Method) : vocabulary.find? k.code = some k := by
  cases k <;> decide

theorem code_injective : Function.Injective code := Vocabulary.code_injective find?_code

/-- What the right side of a test is made of. -/
inductive Shape where
  | absent
  | single
  | joined

def shape : Method → Shape
  | .empty | .notEmpty => .absent
  | .gt | .ge | .lt | .le | .eq | .ne | .crosses | .crossesAbove | .crossesBelow | .like | .notLike => .single
  | .between | .notBetween | .inDayRange | .inWeekRange | .inMonthRange | .abovePercent | .belowPercent
  | .betweenPercent | .notBetweenPercent | .has | .hasNoneOf => .joined

/-- How a right side holds arguments, each in its place. -/
inductive Shape.Holds : Shape → List Json → Option Json → Prop where
  | absent : Holds .absent [] none
  | single (j : Json) : Holds .single [j] (some j)
  | joined (js : List Json) : Holds .joined js (some (.array js))

/-- Arguments and right side give each other. -/
theorem Shape.Holds.eq_iff {s : Shape} {js js' : List Json} {o o' : Option Json} (h : s.Holds js o)
    (h' : s.Holds js' o') : o = o' ↔ js = js' := by
  cases h <;> cases h' <;> simp

end Method

theorem code_comparison (t : Test) : t.comparison.code = t.method.code := by
  cases t <;> rfl

/-- **Each method has a comparison of its own.** -/
theorem comparison_eq_iff {t u : Test} : t.comparison = u.comparison ↔ t.method = u.method := by
  have hcode : Function.Injective Comparison.code := Vocabulary.code_injective Comparison.find?_code
  rw [← hcode.eq_iff, code_comparison, code_comparison, Method.code_injective.eq_iff]

theorem holds_operand? (t : Test) :
    t.method.shape.Holds (t.arguments.map Operand.json) (t.operand?.map Operand.json) := by
  cases t with
  | empty | notEmpty => exact .absent
  | gt x | ge x | lt x | le x | eq x | ne x | crosses x | crossesAbove x | crossesBelow x | like x
  | notLike x => exact .single x.json
  | between x y | notBetween x y | inDayRange x y | inWeekRange x y | inMonthRange x y
  | abovePercent x y | belowPercent x y => exact .joined [x.json, y.json]
  | betweenPercent x y z | notBetweenPercent x y z => exact .joined [x.json, y.json, z.json]
  | has xs | hasNoneOf xs | isIn xs | notIn xs =>
    rw [operand?, Option.map_some, Operand.json, Operand.jsonItems_eq_map]
    exact .joined _

end Test

/-! ## Texts -/

/-- What a test is written as: the column, the code of the method and, if there are arguments, the right
side that holds them. -/
structure Column.Writes (a : Column) (t : Test) (right : Option Json) : Prop where
  holds : t.method.shape.Holds (t.arguments.map Operand.json) right
  json_eq : (a.test t).json = .object ([("left", .string a.name), ("operation", .string t.method.code)] ++
    right.toList.map ("right", ·))

/-- **Every test is written as its method says.** -/
theorem Column.writes_test (a : Column) (t : Test) : a.Writes t (t.operand?.map Operand.json) := by
  refine ⟨t.holds_operand?, ?_⟩
  rw [← t.code_comparison, Condition.json, test]
  dsimp only
  cases t.operand? <;> rfl

theorem Column.Writes.isSome_iff {a : Column} {t : Test} {right : Option Json} (h : a.Writes t right) :
    right.isSome = true ↔ t ≠ .empty ∧ t ≠ .notEmpty := by
  obtain ⟨hholds, -⟩ := h
  cases t <;> cases hholds <;> simp

/-- The text of a test is told by its column, its method and its right side. -/
theorem Column.Writes.json_eq_iff {a b : Column} {t u : Test} {right right' : Option Json}
    (h : a.Writes t right) (h' : b.Writes u right') :
    (a.test t).json = (b.test u).json ↔ a.name = b.name ∧ t.method = u.method ∧ right = right' := by
  rw [h.json_eq, h'.json_eq, ← Test.Method.code_injective.eq_iff]
  cases right <;> cases right' <;> simp

theorem Operand.map_compact_eq_iff {os ps : List Operand} :
    os.map (·.json.compact) = ps.map (·.json.compact) ↔ os.map Operand.json = ps.map Operand.json := by
  have hcompact : Function.Injective Json.compact := fun _ _ => Json.compact_inj.mp
  rw [← List.map_inj_right (f := Json.compact) fun _ _ h => hcompact h, List.map_map, List.map_map]
  rfl

/-- **Two tests have one text exactly when they are of one column and one method, with arguments of
one text each.** The comparison can be read off the text, and the text has a right side unless the
test is for emptiness. -/
theorem Column.text_test_eq_iff (a b : Column) (t u : Test) :
    ((a.test t).json.compact = (b.test u).json.compact ↔
      a.name = b.name ∧ t.method = u.method ∧
        t.arguments.map (·.json.compact) = u.arguments.map (·.json.compact)) ∧
    ∃ fields, (a.test t).json.compact = (Json.object fields).compact ∧
      (Entries.get? "operation" fields).map Comparison.vocabulary.ofJson = some (.ok t.comparison) ∧
      ("right" ∈ Entries.keys fields ↔ t ≠ .empty ∧ t ≠ .notEmpty) := by
  have hwrites := a.writes_test t
  have hwrites' := b.writes_test u
  constructor
  · rw [Json.compact_inj, hwrites.json_eq_iff hwrites', Operand.map_compact_eq_iff]
    refine and_congr_right fun _ => and_congr_right fun hmethod => ?_
    -- tests of one method hold their arguments in one way
    have hu := hwrites'.holds
    rw [← hmethod] at hu
    exact hwrites.holds.eq_iff hu
  · refine ⟨_, congrArg _ hwrites.json_eq, ?_, ?_⟩
    · have hread : Comparison.vocabulary.ofJson (.string t.method.code) = .ok t.comparison := by
        rw [← t.code_comparison]
        exact Vocabulary.ofJson_json Comparison.find?_code t.comparison
      exact congrArg some hread
    · rw [← hwrites.isSome_iff]
      cases t.operand? <;> simp [Entries.keys]

end MarketScan
