import MarketScan.Json.Basic

/-!
# The shape of JSON values

Facts about a value that are facts about its items and fields.

* `Json.induction` — a proof for every value from one for each kind of value
* `Json.Integral` — no floating number stands anywhere in the value
* `Json.Hereditary` — what holds of an array or object when it holds of all parts
-/

namespace MarketScan.Json

/-- A property that passes from items and fields to what they make up holds of every value. -/
theorem induction {motive : Json → Prop} (null : motive .null) (bool : ∀ b, motive (.bool b))
    (number : ∀ n, motive (.number n)) (string : ∀ s, motive (.string s))
    (array : ∀ items, (∀ j ∈ items, motive j) → motive (.array items))
    (object : ∀ fields, (∀ e ∈ fields, motive e.2) → motive (.object fields)) (j : Json) :
    motive j :=
  @Json.rec motive (fun items => ∀ j ∈ items, motive j) (fun fields => ∀ e ∈ fields, motive e.2)
    (fun e => motive e.2) null bool number string array object nofun
    (fun _ _ hitem hitems => List.forall_mem_cons.mpr ⟨hitem, hitems⟩) nofun
    (fun _ _ hfield hfields => List.forall_mem_cons.mpr ⟨hfield, hfields⟩) (fun _ _ h => h) j

/-- Two values of one kind. -/
inductive OfOneKind : Json → Json → Prop where
  | null : OfOneKind .null .null
  | bool (a b : Bool) : OfOneKind (.bool a) (.bool b)
  | number (m n : Number) : OfOneKind (.number m) (.number n)
  | string (s t : String) : OfOneKind (.string s) (.string t)
  | array (xs ys : List Json) : OfOneKind (.array xs) (.array ys)
  | object (fs gs : List (String × Json)) : OfOneKind (.object fs) (.object gs)

/-! ## Distinct keys -/

theorem keysDistinctItems_iff (items : List Json) :
    KeysDistinctItems items ↔ ∀ j ∈ items, KeysDistinct j := by
  induction items with
  | nil => simp [KeysDistinctItems]
  | cons item items ih => rw [KeysDistinctItems, ih, List.forall_mem_cons]

theorem keysDistinctFields_iff (fields : List (String × Json)) :
    KeysDistinctFields fields ↔ ∀ e ∈ fields, KeysDistinct e.2 := by
  induction fields with
  | nil => simp [KeysDistinctFields]
  | cons e fields ih => rw [KeysDistinctFields, ih, List.forall_mem_cons]

theorem keysDistinct_array {items : List Json} :
    KeysDistinct (.array items) ↔ ∀ j ∈ items, KeysDistinct j := by
  rw [KeysDistinct, keysDistinctItems_iff]

theorem keysDistinct_object {fields : List (String × Json)} :
    KeysDistinct (.object fields) ↔
      (Entries.keys fields).Nodup ∧ ∀ e ∈ fields, KeysDistinct e.2 := by
  rw [KeysDistinct, keysDistinctFields_iff]

/-! ## Whole numbers -/

mutual

/-- Every number in the value is whole. -/
def Integral : Json → Prop
  | .number (.float _) => False
  | .array items => IntegralItems items
  | .object fields => IntegralFields fields
  | _ => True

def IntegralItems : List Json → Prop
  | [] => True
  | item :: items => Integral item ∧ IntegralItems items

def IntegralFields : List (String × Json) → Prop
  | [] => True
  | (_, value) :: fields => Integral value ∧ IntegralFields fields

end

theorem integral_array {items : List Json} :
    Integral (.array items) ↔ ∀ j ∈ items, Integral j := by
  rw [Integral]
  induction items with
  | nil => simp [IntegralItems]
  | cons item items ih => rw [IntegralItems, ih, List.forall_mem_cons]

theorem integral_object {fields : List (String × Json)} :
    Integral (.object fields) ↔ ∀ e ∈ fields, Integral e.2 := by
  rw [Integral]
  induction fields with
  | nil => simp [IntegralFields]
  | cons e fields ih => rw [IntegralFields, ih, List.forall_mem_cons]

/-! ## Nesting -/

theorem nestingItems_le_iff {n : Nat} {items : List Json} :
    nestingItems items ≤ n ↔ ∀ j ∈ items, nesting j ≤ n := by
  induction items with
  | nil => simp [nestingItems]
  | cons item items ih => rw [nestingItems, Nat.max_le, ih, List.forall_mem_cons]

theorem nestingFields_le_iff {n : Nat} {fields : List (String × Json)} :
    nestingFields fields ≤ n ↔ ∀ e ∈ fields, nesting e.2 ≤ n := by
  induction fields with
  | nil => simp [nestingFields]
  | cons e fields ih => rw [nestingFields, Nat.max_le, ih, List.forall_mem_cons]

/-- An array is one level deeper than its items. -/
theorem nesting_array_le_iff {n : Nat} {items : List Json} :
    nesting (.array items) ≤ n + 1 ↔ ∀ j ∈ items, nesting j ≤ n := by
  rw [nesting, Nat.succ_le_succ_iff, nestingItems_le_iff]

theorem nesting_object_le_iff {n : Nat} {fields : List (String × Json)} :
    nesting (.object fields) ≤ n + 1 ↔ ∀ e ∈ fields, nesting e.2 ≤ n := by
  rw [nesting, Nat.succ_le_succ_iff, nestingFields_le_iff]

/-! ## What documents are made of -/

/-- A property of every scalar but floating numbers that arrays, and objects with distinct keys, have
when all parts have it. -/
structure Hereditary (p : Json → Prop) : Prop where
  bool (b : Bool) : p (.bool b)
  whole (n : Whole) : p (.number (.whole n))
  string (s : String) : p (.string s)
  array {items : List Json} : (∀ j ∈ items, p j) → p (.array items)
  object {fields : List (String × Json)} :
    (Entries.keys fields).Nodup → (∀ e ∈ fields, p e.2) → p (.object fields)

theorem hereditary_integral : Hereditary Integral where
  bool _ := trivial
  whole _ := trivial
  string _ := trivial
  array := integral_array.mpr
  object _ := integral_object.mpr

theorem hereditary_keysDistinct : Hereditary KeysDistinct where
  bool _ := trivial
  whole _ := trivial
  string _ := trivial
  array := keysDistinct_array.mpr
  object hkeys hall := keysDistinct_object.mpr ⟨hkeys, hall⟩

theorem Hereditary.ofStrings {p : Json → Prop} (hp : Hereditary p) (items : List String) :
    p (.ofStrings items) := by
  refine hp.array fun j hj => ?_
  obtain ⟨s, -, rfl⟩ := List.mem_map.mp hj
  exact hp.string s

theorem Hereditary.object_singleton {p : Json → Prop} (hp : Hereditary p) {key : String} {j : Json}
    (h : p j) : p (.object [(key, j)]) :=
  hp.object (List.pairwise_singleton _ key) (List.forall_mem_singleton.mpr h)

end MarketScan.Json
