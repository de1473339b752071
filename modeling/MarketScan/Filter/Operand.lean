import MarketScan.Json.Printer

/-!
# Operands

What a field is compared with: a JSON value, another field, a range or a list. An operand is never
checked against the kind of the field. Operands of different kinds may be written alike, a field like
the string of its name and a range like an array of two, and are still different operands.

* `Operand.json` — the operand in a document
* `Operand.same` — equality, with JSON values compared by `Json.same`
-/

namespace MarketScan

/-- The right side of a condition. -/
inductive Operand where
  /-- A JSON value, which may be an array. -/
  | value (j : Json)
  /-- Another field, by its name. -/
  | field (name : String)
  | range (low high : Operand)
  | list (items : List Operand)

namespace Operand

/-! ## Native values -/

def ofInt64 (n : Int64) : Operand := .value (.number (.whole (.ofInt64 n)))

def ofUInt64 (n : UInt64) : Operand := .value (.ofUInt64 n)

/-- A number of 64 bits; what is not finite becomes null. -/
def ofDouble (x : Numeric.Extended) : Operand := .value (.ofExtended x)

/-- A number rounded to 32 bits; what is not finite then becomes null. -/
def ofSingle (x : Numeric.Extended) : Operand := .value (.ofExtended x.toSingle)

def ofBool (b : Bool) : Operand := .value (.bool b)

def ofString (s : String) : Operand := .value (.string s)

/-- Whether the operand is another field. -/
def isField : Operand → Bool
  | .field _ => true
  | _ => false

/-! ## In a document -/

mutual

/-- The operand in a document. -/
def json : Operand → Json
  | .value j => j
  | .field name => .string name
  | .range low high => .array [json low, json high]
  | .list items => .array (jsonItems items)

def jsonItems : List Operand → List Json
  | [] => []
  | item :: items => json item :: jsonItems items

end

theorem jsonItems_eq_map (items : List Operand) : jsonItems items = items.map json := by
  induction items with
  | nil => rfl
  | cons item items ih => simp [jsonItems, ih]

/-! ## Equality -/

mutual

/-- Equality of operands of one kind; operands of different kinds differ. -/
def same : Operand → Operand → Bool
  | .value j, .value k => j.same k
  | .field a, .field b => a == b
  | .range a b, .range c d => same a c && same b d
  | .list xs, .list ys => sameItems xs ys
  | _, _ => false

def sameItems : List Operand → List Operand → Bool
  | [], [] => true
  | x :: xs, y :: ys => same x y && sameItems xs ys
  | _, _ => false

end

end Operand

end MarketScan
