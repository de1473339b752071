import MarketScan.Entries
import MarketScan.Numeric.Layout

/-!
# JSON values

A JSON value keeps the order of its object fields, and tells whole numbers of up to 64 bits from
floating ones: `1` and `1.0` are different values.

* `Json.same` — equality without regard to the order of object fields, with equal zeros
* `Json.nesting` — how many arrays and objects lie inside each other at the deepest place
* `Json.KeysDistinct` — no object repeats a name
-/

namespace MarketScan

open Numeric (Binary64)

namespace Json

/-- A whole number that fits into 64 bits, with or without sign. -/
structure Whole where
  value : Int
  lower : -9223372036854775808 ≤ value
  upper : value < 18446744073709551616
deriving DecidableEq

namespace Whole

/-- The whole number, if it is in range. -/
def ofInt? (value : Int) : Option Whole :=
  if h : -9223372036854775808 ≤ value ∧ value < 18446744073709551616 then
    some ⟨value, h.1, h.2⟩
  else none

def ofUInt64 (n : UInt64) : Whole :=
  ⟨n.toNat, by omega, by have := n.toNat_lt; omega⟩

def ofInt64 (n : Int64) : Whole :=
  ⟨n.toInt, by have := n.le_toInt; omega, by have := n.toInt_lt; omega⟩

/-- The number without sign, unless it is negative. -/
def toUInt64? (n : Whole) : Option UInt64 :=
  if 0 ≤ n.value then some (UInt64.ofNat n.value.toNat) else none

@[simp] theorem toUInt64?_ofUInt64 (n : UInt64) : (ofUInt64 n).toUInt64? = some n := by
  simp [ofUInt64, toUInt64?]

end Whole

/-- A number of a JSON text. -/
inductive Number where
  | whole (n : Whole)
  | float (x : Binary64)
deriving DecidableEq

/-- Equality of numbers of one sort by value; numbers of different sorts differ. -/
def Number.same : Number → Number → Bool
  | .whole m, .whole n => m == n
  | .float x, .float y => x.same y
  | _, _ => false

/-- The floating number nearest to a number; a number of 64 bits is never too large for that. -/
def Number.toExtended : Number → Numeric.Extended
  | .whole n =>
    .ofFinite? (n.value < 0) (Binary64.ofQuotient? (n.value < 0) n.value.natAbs 1)
  | .float x => .finite x

end Json

/-- A JSON value. -/
inductive Json where
  | null
  | bool (b : Bool)
  | number (n : Json.Number)
  | string (s : String)
  | array (items : List Json)
  | object (fields : List (String × Json))

namespace Json

def ofUInt64 (n : UInt64) : Json := .number (.whole (.ofUInt64 n))

def ofStrings (items : List String) : Json := .array (items.map .string)

/-- A finite number; what is not finite has no JSON form but null. -/
def ofExtended : Numeric.Extended → Json
  | .finite x => .number (.float x)
  | .infinite _ | .nan => .null

/-! ## Equality -/

mutual

/-- Equality without regard to the order of object fields. -/
def same : Json → Json → Bool
  | .null, .null => true
  | .bool a, .bool b => a == b
  | .number m, .number n => m.same n
  | .string s, .string t => s == t
  | .array xs, .array ys => sameItems xs ys
  | .object fs, .object gs => fs.length == gs.length && sameFields fs gs
  | _, _ => false

/-- Equality of items place by place. -/
def sameItems : List Json → List Json → Bool
  | [], [] => true
  | x :: xs, y :: ys => same x y && sameItems xs ys
  | _, _ => false

/-- Whether each field has an equal one of its name in `gs`. -/
def sameFields : List (String × Json) → List (String × Json) → Bool
  | [], _ => true
  | (key, value) :: fs, gs =>
    (match Entries.get? key gs with
      | some other => same value other
      | none => false) && sameFields fs gs

end

/-! ## Shape -/

mutual

/-- How many arrays and objects lie inside each other at the deepest place. -/
def nesting : Json → Nat
  | .array items => nestingItems items + 1
  | .object fields => nestingFields fields + 1
  | _ => 0

def nestingItems : List Json → Nat
  | [] => 0
  | item :: items => max (nesting item) (nestingItems items)

def nestingFields : List (String × Json) → Nat
  | [] => 0
  | (_, value) :: fields => max (nesting value) (nestingFields fields)

end

mutual

/-- No object anywhere in the value repeats a name. -/
def KeysDistinct : Json → Prop
  | .array items => KeysDistinctItems items
  | .object fields => (Entries.keys fields).Nodup ∧ KeysDistinctFields fields
  | _ => True

def KeysDistinctItems : List Json → Prop
  | [] => True
  | item :: items => KeysDistinct item ∧ KeysDistinctItems items

def KeysDistinctFields : List (String × Json) → Prop
  | [] => True
  | (_, value) :: fields => KeysDistinct value ∧ KeysDistinctFields fields

end

end Json

end MarketScan
